import AgenticPrd.Backend.Retention.Restart
import AgenticPrd.Backend.RunManager.Change
import AgenticPrd.Backend.Workflow.Step

/-!
Which runs are admitted, evicted and kept, over any sequence of operations and restarts.
-/

namespace AgenticPrd

namespace Registry

variable {r r' : Registry} {op : RegistryOp} {runId : RunId}

theorem Inv.init (settings : RetentionSettings) : (init settings).Inv :=
  {
    nodup := .nil
    locks := rfl
    streams := rfl
    rows := .nil
    runsNamed := by simp [Registry.init]
    rowsNamed := by simp [Registry.init]
    active := by simp [Registry.init, activeCount]
    retained := by simp [Registry.init]
    started := by simp [Registry.init]
    owned := by simp [Registry.init]
    behind := by simp [Registry.init]
  }

-- What the run manager commits to a run is such a step.
theorem follows_of_change {old s new : RunSnapshot} {event : Option RunEventType} {payload : Payload}
    {sequence : Nat} {stream : EventStore} (hchange : RunManager.Change old event payload s)
    (hstamped : RunManager.Stamped s sequence new) (hsequence : sequence ≤ stream.sequence) :
    Follows old new stream := by
  refine ⟨?_, ?_, ?_⟩
  . exact hstamped.sameRequest.runId.trans hchange.sameRequest.runId
  . intro hterminal
    rw [hstamped.status, hchange.terminal hterminal]
    exact hterminal
  . rw [hstamped.latest]
    exact hsequence

theorem Inv.append (h : r.Inv) {event : RunEventType} {iteration : Nat} {payload : Payload}
    {timestamp : Timestamp} {store store' : SQLiteEventStore} {envelope : RunEvent}
    (hstore : r.storeOf runId = some store) (hfirst : ¬(store.sequence = 0 ∧ event.isTransient = true))
    (happend :
      (SQLiteEventStore.append runId event iteration payload timestamp false).run store
        =
      (.ok envelope, store')) :
    (r.withStore runId envelope store').Inv := by
  obtain ⟨hevent, hsequence, rfl⟩ := SQLiteEventStore.append_ok happend
  apply h.withStore hstore hsequence (append_runId happend)
  intro hzero
  unfold RunEvent.isDurable
  rw [hevent, Bool.not_eq_true', Bool.eq_false_iff]
  exact fun htransient => hfirst ⟨hzero, htransient⟩

theorem Inv.step (h : r.Inv) (hstep : r.step op = some r') : r'.Inv := by
  cases op with
  | createRun a =>
    simp only [Registry.step] at hstep
    split at hstep
    . contradiction
    . next hfresh =>
      cases hstep
      exact h.createRun hfresh
  | cleanupOnce now =>
    cases hstep
    exact h.removed _
  | append runId event iteration payload timestamp =>
    simp only [Registry.step] at hstep
    split at hstep
    . contradiction
    . next store hstore =>
      split at hstep
      . contradiction
      . next hfirst =>
        split at hstep
        . next happend =>
          cases hstep
          exact h.append hstore hfirst happend
        . contradiction
  | commit runId snapshot saved =>
    simp only [Registry.step] at hstep
    split at hstep
    . next old stream hold hstream =>
      split at hstep
      . next hfollows =>
        rw [Option.some.injEq] at hstep
        have hcommit := h.commit hold hfollows
        split at hstep
        . subst hstep
          have hrunId : snapshot.runId = runId :=
            hfollows.1.trans (h.runsNamed _ (Record.mem_of_get? hold))
          apply hcommit.persist
          . rw [hrunId]
            exact Record.mem_keys (Record.mem_of_get? (Record.get?_set_self r.runs runId snapshot))
          . intro stream' hstream'
            change Record.get? r.streams snapshot.runId = some stream' at hstream'
            rw [hrunId, hstream] at hstream'
            cases hstream'
            exact hfollows.2.2
        . subst hstep
          exact hcommit
      . contradiction
    . contradiction
  | shutdown =>
    cases hstep
    exact { h with }
  | restart settings utc =>
    cases hstep
    exact h.restart settings utc

theorem reaches_inv {settings : RetentionSettings}
    (hrun : Transition.Reaches step (init settings) r) : r.Inv := by
  apply hrun.invariant (Inv.init settings)
  intro r op r' hinv _ hstep
  exact hinv.step hstep

-- The stores hold the same runs, each of them once.
structure SameRuns (r : Registry) : Prop where
  nodup : (Record.keys r.runs).Nodup
  locks : ∀ runId, runId ∈ Record.keys r.locks ↔ runId ∈ Record.keys r.runs
  streams : ∀ runId, runId ∈ Record.keys r.streams ↔ runId ∈ Record.keys r.runs
  rows : ∀ runId, runId ∈ Record.keys r.runRows ↔ runId ∈ Record.keys r.runs
  events : ∀ e ∈ r.eventRows, e.runId ∈ Record.keys r.runs

theorem Inv.sameRuns (h : r.Inv) : r.SameRuns := by
  refine {
    nodup := h.nodup
    locks := ?_
    streams := ?_
    rows := fun runId => h.rows.mem_iff
    events := h.owned
  }
  . intro runId
    rw [h.locks]
  . intro runId
    rw [h.streams]

/--
A run that `create_run` evicts has ended, and nothing that has ended and is kept was updated before
it. The store was full.
-/
def EvictsOldest (r r' : Registry) : Prop :=
  ∀ runId snapshot, Record.get? r.runs runId = some snapshot → runId ∉ Record.keys r'.runs →
    r.runs.length = r.settings.maxRetainedRuns
      ∧
    snapshot.status.isTerminal = true
      ∧
    ∀ entry ∈ r.runs, entry.2.status.isTerminal = true → entry.1 ∈ Record.keys r'.runs →
      snapshot.updatedAt ≤ entry.2.updatedAt

theorem Inv.evictsOldest (h : r.Inv)
    (hkept : ∀ runId ∈ Record.keys r.runs, runId ∉ r.evicted → runId ∈ Record.keys r'.runs)
    (hgone : ∀ runId ∈ r.evicted, runId ∉ Record.keys r'.runs) : EvictsOldest r r' := by
  intro runId snapshot hget hnot
  have hmem : (runId, snapshot) ∈ r.runs := Record.mem_of_get? hget
  have hevicted : runId ∈ r.evicted := by
    by_contra hstays
    exact hnot (hkept runId (Record.mem_keys hmem) hstays)
  cases r.evicted_spec with
  | inl hroom =>
    rw [hroom.1] at hevicted
    contradiction
  | inr hfull =>
    rw [hfull.2] at hevicted hgone
    obtain ⟨hended, holdest⟩ := evictableRunIds_oldest h.nodup hget hevicted
    refine ⟨Nat.le_antisymm h.retained hfull.1, hended, ?_⟩
    intro entry hentry hterminal hin
    exact holdest entry hentry hterminal fun hgoes => hgone entry.1 hgoes hin

-- Where one run has ended, one place is found.
theorem Inv.active_of_full (h : r.Inv)
    (hfull : r.settings.maxRetainedRuns ≤ (r.removed r.evicted).runs.length) :
    ∀ entry ∈ r.runs, entry.2.status.isTerminal = false := by
  intro entry hentry
  rw [Bool.eq_false_iff]
  intro hended
  have hcandidates : 1 ≤ r.candidates.length := by
    apply List.length_pos_of_mem (a := age entry)
    exact mem_candidates.mpr ⟨entry, hentry, hended, rfl⟩
  cases r.evicted_spec with
  | inl hroom =>
    rw [hroom.1] at hfull
    change r.settings.maxRetainedRuns ≤ r.runs.length at hfull
    omega
  | inr hspec =>
    have hlength :=
      length_deleteRuns h.nodup (r.runs.length + 1 - r.settings.maxRetainedRuns)
    rw [← hspec.2] at hlength
    change r.settings.maxRetainedRuns ≤ (r.deleteRuns r.evicted).runs.length at hfull
    have := h.retained
    omega

theorem Inv.createRun_evicts (h : r.Inv) {a : Admission} (hfresh : a.runId ∉ Record.keys r.runs) :
    EvictsOldest r ((Registry.createRun a).run r).2
      ∧
    (
      ((Registry.createRun a).run r).1 = .error .storeCapacity →
        ∀ entry ∈ r.runs, entry.2.status.isTerminal = false
    ) := by
  have hremoved : ∀ runId, runId ∈ Record.keys (r.removed r.evicted).runs
      ↔ runId ∈ Record.keys r.runs ∧ runId ∉ r.evicted := by
    intro runId
    rw [removed_keys, List.mem_filter, decide_eq_true_eq]
  have hspec := wp_createRun h hfresh
  unfold Prog.wp at hspec
  split at hspec
  . next heq =>
    rw [heq]
    obtain ⟨_, _, rfl⟩ := hspec
    refine ⟨?_, by simp⟩
    have hadmitted : Record.keys ((r.removed r.evicted).admitted a.snapshot).runs
        = Record.keys (r.removed r.evicted).runs ++ [a.runId] :=
      Record.keys_set_of_new _ (removed_new hfresh)
    apply h.evictsOldest
    . intro runId hmem hstays
      rw [hadmitted, List.mem_append, hremoved]
      exact .inl ⟨hmem, hstays⟩
    . intro runId hgoes hmem
      rw [hadmitted, List.mem_append, hremoved, List.mem_singleton] at hmem
      cases hmem with
      | inl hold => exact hold.2 hgoes
      | inr hnew =>
        subst hnew
        cases r.evicted_spec with
        | inl hroom =>
          rw [hroom.1] at hgoes
          contradiction
        | inr hfull =>
          rw [hfull.2] at hgoes
          obtain ⟨snapshot, hmem, _⟩ := mem_evictableRunIds hgoes
          exact hfresh (Record.mem_keys hmem)
  . next heq =>
    rw [heq]
    cases hspec with
    | inl hsame =>
      rw [hsame.1]
      refine ⟨?_, ?_⟩
      . intro runId snapshot hget hnot
        have := Record.mem_keys (Record.mem_of_get? hget)
        contradiction
      . intro herror
        rw [Except.error.injEq] at herror
        exact absurd herror hsame.2
    | inr hgone =>
      obtain ⟨hstate, hfull⟩ := hgone
      rw [hstate]
      refine ⟨?_, ?_⟩
      . apply h.evictsOldest
        . intro runId hmem hstays
          rw [hremoved]
          exact ⟨hmem, hstays⟩
        . intro runId hgoes hmem
          rw [hremoved] at hmem
          exact hmem.2 hgoes
      . intro herror
        rw [Except.error.injEq] at herror
        exact h.active_of_full (hfull herror)

-- A new process drops the oldest runs, and only as long as there are too many.
def DropsOldest (r r' : Registry) : Prop :=
  ∀ runId snapshot, Record.get? r.runs runId = some snapshot → runId ∉ Record.keys r'.runs →
    r.settings.maxRetainedRuns < r.runs.length
      ∧
    ∀ entry ∈ r.runs, entry.1 ∈ Record.keys r'.runs → snapshot.updatedAt ≤ entry.2.updatedAt

theorem Loaded.dropsOldest (h : Loaded r r') : DropsOldest r' r'.enforceRetentionOnLoad := by
  intro runId snapshot hget hnot
  have hmem : runId ∈ Record.keys r'.runs := Record.mem_keys (Record.mem_of_get? hget)
  unfold enforceRetentionOnLoad at hnot ⊢
  dsimp only at hnot ⊢
  split at hnot
  . contradiction
  . next hover =>
    rw [if_neg hover]
    change runId ∉ Record.keys (Record.eraseAll r'.runs _) at hnot
    change _ ∧ ∀ entry ∈ r'.runs, entry.1 ∈ Record.keys (Record.eraseAll r'.runs _) → _
    rw [Record.keys_eraseAll, List.mem_filter, not_and, decide_eq_true_eq, not_not] at hnot
    refine ⟨by omega, ?_⟩
    intro entry hentry hin
    rw [Record.keys_eraseAll, List.mem_filter, decide_eq_true_eq] at hin
    have holdest := (evictableRunIds_oldest h.nodup hget (hnot hmem)).2
    exact holdest entry hentry (h.ended entry hentry) hin.2

/--
The bounds hold, and the stores and the table `runs` agree on the runs. The rows of `run_events` are
those of these runs, and a run has some as soon as its stream has numbered an event. Only what is
oldest of the runs that have ended is evicted, and only where the store is full.
-/
theorem admission_and_retention {settings : RetentionSettings}
    (hrun : Transition.Reaches step (init settings) r) :
    (
      r.activeCount ≤ r.settings.maxConcurrentRuns
        ∧
      r.runs.length ≤ r.settings.maxRetainedRuns
    )
      ∧
    r.SameRuns
      ∧
    (
      ∀ runId, ∀ stream ∈ Record.get? r.streams runId,
        1 ≤ stream.sequence ↔ runId ∈ r.eventRows.map RunEvent.runId
    )
      ∧
    (
      ∀ a r', r.step (.createRun a) = some r' →
        EvictsOldest r r'
          ∧
        (
          ((createRun a).run r).1 = .error .storeCapacity →
            ∀ entry ∈ r.runs, entry.2.status.isTerminal = false
        )
    )
      ∧
    (
      ∀ settings utc r', r.step (.restart settings utc) = some r' →
        DropsOldest (r.loadSnapshots settings utc) r' ∧ r'.SameRuns
    ) := by
  have hinv := reaches_inv hrun
  refine ⟨⟨hinv.active, hinv.retained⟩, hinv.sameRuns, hinv.started, ?_, ?_⟩
  . intro a r' hstep
    simp only [step] at hstep
    split at hstep
    . contradiction
    . next hfresh =>
      cases hstep
      exact hinv.createRun_evicts hfresh
  . intro settings utc r' hstep
    have hsame := (hinv.step hstep).sameRuns
    cases hstep
    exact ⟨(hinv.loaded settings utc).dropsOldest, hsame⟩

def mockSettings : RetentionSettings :=
  {
    maxConcurrentRuns := 1
    maxRetainedRuns := 1
    runTtl := 60000000
    eventBufferSize := 10
    concurrent_range := by decide
    retained_range := by decide
    buffer_range := by decide
  }

def mockAdmission (runId : RunId) (now : Timestamp) : Admission :=
  {
    env := Workflow.mockWorkflow.toEnv
    request := RunManager.mockRequest
    outputLanguage := "English"
    resolved := true
    runId
    now
    persistRaises := false
  }

def ended (runId : RunId) : RunSnapshot :=
  (mockAdmission runId 0).snapshot.withStatus .failed

-- The second run takes the place of the first one, whose events go with it.
def replacedOps : List RegistryOp :=
  [
    .createRun (mockAdmission "first" 0),
    .append "first" .runStarted 1 [] 1,
    .commit "first" (ended "first") true,
    .createRun (mockAdmission "second" 2),
    .append "second" .runStarted 1 [] 3,
    .restart mockSettings fun _ => 3
  ]

theorem admission_and_retention_replaced :
    ∃ r, Transition.exec step (init mockSettings) replacedOps = some r ∧ r.SameRuns := by
  have hexec : (Transition.exec step (init mockSettings) replacedOps).isSome := by
    decide +kernel
  rw [Option.isSome_iff_exists] at hexec
  obtain ⟨r, hrun⟩ := hexec
  exact ⟨r, hrun, (admission_and_retention (.of_exec hrun)).2.1⟩

-- A run has no row in `run_events` when `create_run` returns.
theorem not_same_runs :
    ¬∀ (settings : RetentionSettings) (r : Registry),
      Transition.Reaches step (init settings) r →
        ∀ runId,
          (runId ∈ Record.keys r.runRows ↔ runId ∈ Record.keys r.runs)
            ∧
          (
            runId ∈ r.eventRows.map RunEvent.runId ∧ runId ∈ Record.keys r.runs
              ↔
            runId ∈ Record.keys r.runs
          ) := by
  intro hclaim
  have hexec :
      (Transition.exec step (init mockSettings) [.createRun (mockAdmission "first" 0)]).any
        (fun r => decide ("first" ∈ Record.keys r.runs) && r.eventRows.isEmpty) := by
    decide +kernel
  rw [Option.any_eq_true] at hexec
  obtain ⟨r, hrun, hcreated⟩ := hexec
  rw [Bool.and_eq_true, decide_eq_true_eq, List.isEmpty_iff] at hcreated
  have hmem := ((hclaim mockSettings r (.of_exec hrun) "first").2.mpr hcreated.1).1
  rw [hcreated.2] at hmem
  contradiction

end Registry

end AgenticPrd
