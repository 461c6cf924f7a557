import AgenticPrd.Backend.EventStore.Replay
import AgenticPrd.Backend.Retention.Basic

/-!
The stores agree on the runs that are retained, and there are never too many of them.
-/

namespace AgenticPrd

namespace Registry

open Least

variable {r : Registry} {runId : RunId} {snapshot : RunSnapshot} {gone : List RunId} {needed : Nat}

/--
`started` says when a run has events in the table: as soon as its stream has numbered one. `owned`
says that no others have.
-/
structure Inv (r : Registry) : Prop where
  nodup : (Record.keys r.runs).Nodup
  locks : Record.keys r.locks = Record.keys r.runs
  streams : Record.keys r.streams = Record.keys r.runs
  rows : (Record.keys r.runRows).Perm (Record.keys r.runs)
  runsNamed : ∀ entry ∈ r.runs, entry.2.runId = entry.1
  rowsNamed : ∀ entry ∈ r.runRows, entry.2.runId = entry.1
  active : r.activeCount ≤ r.settings.maxConcurrentRuns
  retained : r.runs.length ≤ r.settings.maxRetainedRuns
  started :
    ∀ runId, ∀ stream ∈ Record.get? r.streams runId,
      1 ≤ stream.sequence ↔ runId ∈ r.eventRows.map RunEvent.runId
  owned : ∀ e ∈ r.eventRows, e.runId ∈ Record.keys r.runs
  behind :
    ∀ row ∈ r.runRows, ∀ stream ∈ Record.get? r.streams row.1,
      row.2.latestEventSequence ≤ stream.sequence

theorem Inv.streams_nodup (h : r.Inv) : (Record.keys r.streams).Nodup := by
  rw [h.streams]
  exact h.nodup

-- A run that is not there has no events.
theorem Inv.not_mem_eventRows (h : r.Inv) (hnew : runId ∉ Record.keys r.runs) :
    runId ∉ r.eventRows.map RunEvent.runId := by
  intro hmem
  obtain ⟨e, he, rfl⟩ := List.mem_map.mp hmem
  exact hnew (h.owned e he)

section Evict

-- The runs that have ended, with their age.
def candidates (r : Registry) : List (Timestamp ×ₗ RunId) :=
  (r.runs.filter fun entry => entry.2.status.isTerminal).map age

theorem mem_candidates {a : Timestamp ×ₗ RunId} :
    a ∈ r.candidates ↔ ∃ entry ∈ r.runs, entry.2.status.isTerminal = true ∧ age entry = a := by
  unfold candidates
  simp only [List.mem_map, List.mem_filter, and_assoc]

theorem length_evictableRunIds (r : Registry) (needed : Nat) :
    (r.evictableRunIds needed).length = min needed r.candidates.length := by
  unfold evictableRunIds
  rw [List.length_map, length_least]
  rfl

theorem mem_evictableRunIds (h : runId ∈ r.evictableRunIds needed) :
    ∃ snapshot,
      (runId, snapshot) ∈ r.runs
        ∧
      snapshot.status.isTerminal = true
        ∧
      age (runId, snapshot) ∈ least needed r.candidates := by
  unfold evictableRunIds at h
  rw [List.mem_map] at h
  obtain ⟨a, ha, rfl⟩ := h
  obtain ⟨entry, hentry, hterminal, rfl⟩ := mem_candidates.mp (mem_of_mem_least ha)
  exact ⟨entry.2, hentry, hterminal, ha⟩

theorem evictableRunIds_oldest (hnodup : (Record.keys r.runs).Nodup)
    (hget : Record.get? r.runs runId = some snapshot) (h : runId ∈ r.evictableRunIds needed) :
    snapshot.status.isTerminal = true
      ∧
    ∀ entry ∈ r.runs, entry.2.status.isTerminal = true → entry.1 ∉ r.evictableRunIds needed →
      snapshot.updatedAt ≤ entry.2.updatedAt := by
  obtain ⟨snapshot', hmem, hended, hleast⟩ := mem_evictableRunIds h
  have hget' := Record.get?_of_mem hnodup hmem
  rw [hget, Option.some.injEq] at hget'
  subst hget'
  refine ⟨hended, ?_⟩
  intro entry hentry hterminal hstays
  have hnot : age entry ∉ least needed r.candidates := by
    intro hage
    apply hstays
    exact List.mem_map_of_mem hage
  have hle := le_of_mem_least hleast (mem_candidates.mpr ⟨entry, hentry, hterminal, rfl⟩) hnot
  exact Prod.Lex.monotone_fst _ _ hle

theorem nodup_evictableRunIds (h : (Record.keys r.runs).Nodup) :
    (r.evictableRunIds needed).Nodup := by
  apply nodup_map_least
  have hnames : r.candidates.map (fun a => (ofLex a).2)
      = Record.keys (r.runs.filter fun entry => entry.2.status.isTerminal) := by
    unfold candidates Record.keys
    rw [List.map_map]
    rfl
  change (r.candidates.map fun a => (ofLex a).2).Nodup
  rw [hnames]
  exact h.sublist (List.filter_sublist.map _)

end Evict

section Remove

def removed (gone : List RunId) (r : Registry) : Registry :=
  ((r.deleteRuns gone).deleteRows gone).releaseRunResources gone

theorem mem_eventRows_removed (hstays : runId ∉ gone) :
    runId ∈ (r.removed gone).eventRows.map RunEvent.runId
      ↔ runId ∈ r.eventRows.map RunEvent.runId := by
  have hrows : (r.removed gone).eventRows = r.eventRows.filter fun e => e.runId ∉ gone := rfl
  simp only [hrows, List.mem_map, List.mem_filter, decide_eq_true_eq]
  constructor
  . rintro ⟨e, ⟨he, _⟩, heq⟩
    exact ⟨e, he, heq⟩
  . rintro ⟨e, he, rfl⟩
    exact ⟨e, ⟨he, hstays⟩, rfl⟩

theorem Inv.removed (h : r.Inv) (gone : List RunId) : (r.removed gone).Inv := by
  have hkeys : ∀ {α : Type} (record : List (RunId × α)),
      Record.keys (Record.eraseAll record gone) = (Record.keys record).filter (· ∉ gone) :=
    fun record => Record.keys_eraseAll record gone
  refine {
    nodup := ?_
    locks := ?_
    streams := ?_
    rows := ?_
    runsNamed := ?_
    rowsNamed := ?_
    active := ?_
    retained := ?_
    started := ?_
    owned := ?_
    behind := ?_
  }
  . unfold Registry.removed deleteRuns deleteRows releaseRunResources removeStreams
    rw [hkeys]
    exact h.nodup.filter _
  . unfold Registry.removed deleteRuns deleteRows releaseRunResources removeStreams
    rw [hkeys, hkeys, h.locks]
  . unfold Registry.removed deleteRuns deleteRows releaseRunResources removeStreams
    rw [hkeys, hkeys, h.streams]
  . unfold Registry.removed deleteRuns deleteRows releaseRunResources removeStreams
    rw [hkeys, hkeys]
    exact h.rows.filter _
  . intro entry hentry
    exact h.runsNamed entry (Record.mem_of_mem_eraseAll hentry)
  . intro entry hentry
    exact h.rowsNamed entry (Record.mem_of_mem_eraseAll hentry)
  . apply le_trans _ h.active
    unfold activeCount Registry.removed deleteRuns deleteRows releaseRunResources removeStreams
    rw [Record.eraseAll_eq]
    exact List.filter_sublist.countP_le
  . apply le_trans _ h.retained
    unfold Registry.removed deleteRuns deleteRows releaseRunResources removeStreams
    rw [Record.eraseAll_eq]
    exact List.filter_sublist.length_le
  . intro runId stream hstream
    have hstays : runId ∉ gone := by
      have hkey := Record.mem_keys (Record.mem_of_get? hstream)
      change runId ∈ Record.keys (Record.eraseAll r.streams gone) at hkey
      rw [hkeys, List.mem_filter, decide_eq_true_eq] at hkey
      exact hkey.2
    rw [h.started runId stream (Record.get?_of_eraseAll h.streams_nodup hstream)]
    exact (mem_eventRows_removed hstays).symm
  . intro e he
    change e ∈ r.eventRows.filter _ at he
    change e.runId ∈ Record.keys (Record.eraseAll r.runs gone)
    rw [List.mem_filter] at he
    rw [hkeys, List.mem_filter]
    exact ⟨h.owned e he.1, he.2⟩
  . intro row hrow stream hstream
    exact h.behind row (Record.mem_of_mem_eraseAll hrow) stream (Record.get?_of_eraseAll h.streams_nodup hstream)

end Remove

section Create

-- The runs that `create_run` evicts.
def evicted (r : Registry) : List RunId :=
  (r.makeRoom 1).1

theorem evicted_spec (r : Registry) :
    (r.evicted = [] ∧ r.runs.length < r.settings.maxRetainedRuns)
      ∨
    (
      r.settings.maxRetainedRuns ≤ r.runs.length
        ∧
      r.evicted = r.evictableRunIds (r.runs.length + 1 - r.settings.maxRetainedRuns)
    ) := by
  unfold evicted makeRoom
  dsimp only
  split
  . left
    refine ⟨rfl, ?_⟩
    omega
  . right
    refine ⟨?_, rfl⟩
    omega

theorem makeRoom_released (r : Registry) :
    (r.makeRoom 1).2.releaseRunResources r.evicted = r.removed r.evicted := by
  unfold evicted makeRoom
  dsimp only
  split <;> rfl

def admitted (snapshot : RunSnapshot) (r : Registry) : Registry :=
  {
    r with
    runs := Record.set r.runs snapshot.runId snapshot
    locks := Record.set r.locks snapshot.runId ()
    streams :=
      Record.set r.streams snapshot.runId (EventStore.createRun r.settings.eventBufferSize)
    runRows := Record.set r.runRows snapshot.runId snapshot
  }

theorem wp_create {Q : Unit → Registry → Prop} {E : AdmissionError → Registry → Prop}
    {persistRaises : Bool} (hruns : snapshot.runId ∉ Record.keys r.runs)
    (hlocks : snapshot.runId ∉ Record.keys r.locks) :
    Prog.wp (create snapshot persistRaises) r Q E
      ↔
    if r.settings.maxRetainedRuns ≤ r.runs.length then
      E .storeCapacity r
    else if persistRaises then
      E .databaseError r
    else
      Q () (persist snapshot {
        r with
        runs := Record.set r.runs snapshot.runId snapshot
        locks := Record.set r.locks snapshot.runId ()
      }) := by
  unfold create
  rw [Prog.wp_bind, Prog.wp_get, if_neg hruns, Prog.wp_ite]
  split
  . rfl
  . rw [Prog.wp_bind, Prog.wp_set, Prog.wp_ite]
    split
    . rw [Prog.wp_bind, Prog.wp_modify, Prog.wp_throw]
      unfold deleteRuns
      dsimp only
      rw [Record.eraseAll_set_of_new _ hruns, Record.eraseAll_set_of_new _ hlocks]
    . rfl

variable {a : Admission}

theorem removed_keys (gone : List RunId) (r : Registry) :
    Record.keys (r.removed gone).runs = (Record.keys r.runs).filter (· ∉ gone) :=
  Record.keys_eraseAll _ _

theorem removed_new (h : runId ∉ Record.keys r.runs) :
    runId ∉ Record.keys (r.removed gone).runs := by
  rw [removed_keys, List.mem_filter]
  exact fun hmem => h hmem.1

/--
A run is admitted, or the checks before the eviction fail, or there is no place or no database to
store the run after it.
-/
theorem wp_createRun (h : r.Inv) (hfresh : a.runId ∉ Record.keys r.runs) :
    Prog.wp (createRun a) r
      (fun _ r' =>
        r.activeCount < r.settings.maxConcurrentRuns
          ∧
        (r.removed r.evicted).runs.length < r.settings.maxRetainedRuns
          ∧
        r' = (r.removed r.evicted).admitted a.snapshot)
      (fun error r' =>
        (r' = r ∧ error ≠ .storeCapacity)
          ∨
        (
          r' = r.removed r.evicted
            ∧
          (error = .storeCapacity
            → r.settings.maxRetainedRuns ≤ (r.removed r.evicted).runs.length)
        )) := by
  have hinv := h.removed r.evicted
  have hruns : a.snapshot.runId ∉ Record.keys (r.removed r.evicted).runs := removed_new hfresh
  have hlocks : a.snapshot.runId ∉ Record.keys (r.removed r.evicted).locks := by
    rw [hinv.locks]
    exact hruns
  have hstreams : a.runId ∉ Record.keys (r.removed r.evicted).streams := by
    rw [hinv.streams]
    exact hruns
  unfold createRun
  rw [Prog.wp_bind, Prog.wp_get, Prog.wp_ite]
  split
  . left
    exact ⟨rfl, nofun⟩
  . rw [Prog.wp_ite]
    split
    . left
      exact ⟨rfl, nofun⟩
    . rw [Prog.wp_ite]
      split
      . left
        exact ⟨rfl, nofun⟩
      . next hactive =>
        have hmake : r.makeRoom 1 = (r.evicted, (r.makeRoom 1).2) := rfl
        rw [hmake]
        dsimp only
        rw [Prog.wp_bind, Prog.wp_set, makeRoom_released, Prog.wp_bind]
        rw [wp_create hruns hlocks]
        split
        . next hfull =>
          right
          exact ⟨rfl, fun _ => hfull⟩
        . next hroom =>
          split
          . right
            exact ⟨rfl, nofun⟩
          . unfold createStream
            rw [Prog.wp_bind, Prog.wp_bind, Prog.wp_get]
            have hnot : a.runId ∉ Record.keys
                (persist a.snapshot { r.removed r.evicted with
                  runs := Record.set (r.removed r.evicted).runs a.snapshot.runId a.snapshot
                  locks := Record.set (r.removed r.evicted).locks a.snapshot.runId () }).streams :=
              hstreams
            rw [if_neg hnot]
            refine ⟨Nat.lt_of_not_le hactive, Nat.lt_of_not_le hroom, rfl⟩

theorem Inv.admitted (h : r.Inv) (hactive : r.activeCount < r.settings.maxConcurrentRuns)
    (hroom : r.runs.length < r.settings.maxRetainedRuns)
    (hnew : snapshot.runId ∉ Record.keys r.runs)
    (hsequence : snapshot.latestEventSequence = 0) : (r.admitted snapshot).Inv := by
  have hlocks : snapshot.runId ∉ Record.keys r.locks := by
    rw [h.locks]
    exact hnew
  have hstreams : snapshot.runId ∉ Record.keys r.streams := by
    rw [h.streams]
    exact hnew
  have hrows : snapshot.runId ∉ Record.keys r.runRows := by
    rw [h.rows.mem_iff]
    exact hnew
  refine {
    nodup := ?_
    locks := ?_
    streams := ?_
    rows := ?_
    runsNamed := ?_
    rowsNamed := ?_
    active := ?_
    retained := ?_
    started := ?_
    owned := ?_
    behind := ?_
  }
  . unfold Registry.admitted
    rw [Record.keys_set_of_new _ hnew, List.nodup_append]
    refine ⟨h.nodup, List.nodup_singleton _, ?_⟩
    intro key hkey last hlast
    rw [List.mem_singleton.mp hlast]
    rintro rfl
    exact hnew hkey
  . unfold Registry.admitted
    rw [Record.keys_set_of_new _ hnew, Record.keys_set_of_new _ hlocks, h.locks]
  . unfold Registry.admitted
    rw [Record.keys_set_of_new _ hnew, Record.keys_set_of_new _ hstreams, h.streams]
  . unfold Registry.admitted
    rw [Record.keys_set_of_new _ hnew, Record.keys_set_of_new _ hrows]
    exact h.rows.append_right _
  . intro entry hentry
    cases Record.mem_set hentry with
    | inl hold => exact h.runsNamed entry hold
    | inr hentry => rw [hentry]
  . intro entry hentry
    cases Record.mem_set hentry with
    | inl hold => exact h.rowsNamed entry hold
    | inr hentry => rw [hentry]
  . unfold Registry.admitted activeCount
    rw [Record.set_of_new _ hnew, List.countP_append]
    have hone : [(snapshot.runId, snapshot)].countP isActive ≤ 1 := List.countP_le_length
    unfold activeCount at hactive
    dsimp only
    omega
  . unfold Registry.admitted
    rw [Record.set_of_new _ hnew, List.length_append]
    dsimp only [List.length_singleton]
    omega
  . intro runId stream hstream
    change Record.get? (Record.set r.streams _ _) _ = some stream at hstream
    rw [Record.get?_set] at hstream
    split at hstream
    . next heq =>
      cases hstream
      subst heq
      constructor
      . intro hpos
        change 1 ≤ 0 at hpos
        omega
      . intro hmem
        exact absurd hmem (h.not_mem_eventRows hnew)
    . exact h.started runId stream hstream
  . intro e he
    exact Record.mem_keys_set.mpr (.inl (h.owned e he))
  . intro row hrow stream hstream
    change Record.get? (Record.set r.streams _ _) _ = some stream at hstream
    cases Record.mem_set hrow with
    | inl hold =>
      have hne : row.1 ≠ snapshot.runId := by
        intro heq
        apply hrows
        rw [← heq]
        exact List.mem_map_of_mem hold
      rw [Record.get?_set_ne _ _ hne] at hstream
      exact h.behind row hold stream hstream
    | inr hrow =>
      rw [hrow, hsequence]
      exact Nat.zero_le _

theorem Inv.createRun (h : r.Inv) (hfresh : a.runId ∉ Record.keys r.runs) :
    ((createRun a).run r).2.Inv := by
  have hspec := wp_createRun h hfresh
  unfold Prog.wp at hspec
  split at hspec
  . next heq =>
    rw [heq]
    obtain ⟨hactive, hroom, rfl⟩ := hspec
    have hremoved := h.removed r.evicted
    apply hremoved.admitted _ hroom (removed_new hfresh) rfl
    apply lt_of_le_of_lt _ hactive
    unfold activeCount Registry.removed deleteRuns deleteRows releaseRunResources removeStreams
    rw [Record.eraseAll_eq]
    exact List.filter_sublist.countP_le
  . next heq =>
    rw [heq]
    cases hspec with
    | inl hsame =>
      rw [hsame.1]
      exact h
    | inr hremoved =>
      rw [hremoved.1]
      exact h.removed _

end Create

section Append

theorem append_runId {event : RunEventType} {iteration : Nat} {payload : Payload}
    {timestamp : Timestamp} {store store' : SQLiteEventStore} {e : RunEvent}
    (h : (SQLiteEventStore.append runId event iteration payload timestamp false).run store
      = (.ok e, store')) : e.runId = runId := by
  have hwp : Prog.wp (SQLiteEventStore.append runId event iteration payload timestamp false) store
      (fun e _ => e.runId = runId) (fun _ _ => True) := by
    rw [SQLiteEventStore.wp_append]
    split
    . trivial
    . next e heq =>
      split
      . trivial
      . unfold RunEvent.validate? at heq
        split at heq
        . cases heq
          rfl
        . contradiction
  exact (Prog.wp_of_run_ok h).mp hwp

theorem storeOf_eq_some {store : SQLiteEventStore} (h : r.storeOf runId = some store) :
    Record.get? r.streams runId = some store.toEventStore ∧ store.rows = r.rowsOf runId := by
  unfold storeOf at h
  rw [Option.map_eq_some_iff] at h
  obtain ⟨stream, hstream, rfl⟩ := h
  exact ⟨hstream, rfl⟩

theorem Inv.withStore (h : r.Inv) {store : SQLiteEventStore} {e : RunEvent}
    (hstore : r.storeOf runId = some store) (hsequence : e.sequence = store.sequence + 1)
    (hrunId : e.runId = runId) (hfirst : store.sequence = 0 → e.isDurable = true) :
    (r.withStore runId e (store.pushRow e)).Inv := by
  obtain ⟨hstream, _⟩ := storeOf_eq_some hstore
  have hkey : runId ∈ Record.keys r.streams := Record.mem_keys (Record.mem_of_get? hstream)
  have hstreams : ∀ id stream,
      Record.get? (r.withStore runId e (store.pushRow e)).streams id = some stream →
        id = runId ∧ stream.sequence = e.sequence
          ∨ id ≠ runId ∧ Record.get? r.streams id = some stream := by
    intro id stream hid
    change Record.get? (Record.set r.streams _ _) _ = some stream at hid
    rw [Record.get?_set] at hid
    split at hid
    . next heq =>
      cases hid
      exact .inl ⟨heq, rfl⟩
    . next hne => exact .inr ⟨hne, hid⟩
  have hevents : ∀ id, id ∈ (r.withStore runId e (store.pushRow e)).eventRows.map RunEvent.runId
      ↔ id ∈ r.eventRows.map RunEvent.runId ∨ id = runId ∧ e.isDurable = true := by
    intro id
    unfold Registry.withStore
    dsimp only
    split
    . next hdurable => simp [hrunId, hdurable]
    . next hdurable => simp [hdurable]
  refine {
    nodup := h.nodup
    locks := h.locks
    streams := (Record.keys_set_of_mem _ hkey).trans h.streams
    rows := h.rows
    runsNamed := h.runsNamed
    rowsNamed := h.rowsNamed
    active := h.active
    retained := h.retained
    started := ?_
    owned := ?_
    behind := ?_
  }
  . intro id stream hid
    rw [hevents]
    cases hstreams id stream hid with
    | inl hnew =>
      obtain ⟨rfl, hstream'⟩ := hnew
      have hstarted := h.started id _ hstream
      constructor
      . intro _
        by_cases hzero : store.sequence = 0
        . exact .inr ⟨rfl, hfirst hzero⟩
        . left
          apply hstarted.mp
          omega
      . intro _
        rw [hstream', hsequence]
        exact Nat.le_add_left _ _
    | inr hold =>
      have hstarted := h.started id stream hold.2
      rw [hstarted]
      constructor
      . exact .inl
      . rintro (hmem | heq)
        . exact hmem
        . exact absurd heq.1 hold.1
  . intro e' he'
    have hmem := (hevents e'.runId).mp (List.mem_map_of_mem he')
    change e'.runId ∈ Record.keys r.runs
    cases hmem with
    | inl hold =>
      obtain ⟨old, hold, heq⟩ := List.mem_map.mp hold
      rw [← heq]
      exact h.owned old hold
    | inr hnew =>
      rw [hnew.1, ← h.streams]
      exact hkey
  . intro row hrow stream hid
    cases hstreams row.1 stream hid with
    | inl hnew =>
      rw [← hnew.1] at hstream
      have hbehind := h.behind row hrow _ hstream
      rw [hnew.2, hsequence]
      omega
    | inr hold => exact h.behind row hrow stream hold.2

end Append

section Commit

variable {old : RunSnapshot} {stream : EventStore}

theorem Inv.commit (h : r.Inv) (hold : Record.get? r.runs runId = some old)
    (hfollows : Follows old snapshot stream) :
    Inv { r with runs := Record.set r.runs runId snapshot } := by
  have hkey : runId ∈ Record.keys r.runs := Record.mem_keys (Record.mem_of_get? hold)
  have hrunId : snapshot.runId = runId :=
    hfollows.1.trans (h.runsNamed _ (Record.mem_of_get? hold))
  have hkeys := Record.keys_set_of_mem snapshot hkey
  refine {
    nodup := ?_
    locks := ?_
    streams := ?_
    rows := ?_
    runsNamed := ?_
    rowsNamed := h.rowsNamed
    active := ?_
    retained := ?_
    started := h.started
    owned := ?_
    behind := h.behind
  }
  . rw [hkeys]
    exact h.nodup
  . rw [hkeys]
    exact h.locks
  . rw [hkeys]
    exact h.streams
  . rw [hkeys]
    exact h.rows
  . intro entry hentry
    cases Record.mem_set hentry with
    | inl hmem => exact h.runsNamed entry hmem
    | inr hentry =>
      rw [hentry]
      exact hrunId
  . apply le_trans _ h.active
    apply Record.countP_set_le hold
    intro hactive
    unfold isActive at hactive ⊢
    rw [Bool.not_eq_true'] at hactive ⊢
    rw [Bool.eq_false_iff] at hactive ⊢
    exact fun hterminal => hactive (hfollows.2.1 hterminal)
  . rw [Record.length_set_of_mem snapshot hkey]
    exact h.retained
  . rw [hkeys]
    exact h.owned

theorem Inv.persist (h : r.Inv) (hkey : snapshot.runId ∈ Record.keys r.runs)
    (hbehind : ∀ stream ∈ Record.get? r.streams snapshot.runId,
      snapshot.latestEventSequence ≤ stream.sequence) :
    (r.persist snapshot).Inv := by
  have hrow : snapshot.runId ∈ Record.keys r.runRows := h.rows.mem_iff.mpr hkey
  refine {
    h with
    rows := ?_
    rowsNamed := ?_
    behind := ?_
  }
  . unfold Registry.persist
    rw [Record.keys_set_of_mem _ hrow]
    exact h.rows
  . intro entry hentry
    cases Record.mem_set hentry with
    | inl hmem => exact h.rowsNamed entry hmem
    | inr hentry => rw [hentry]
  . intro row hmem stream hstream
    cases Record.mem_set hmem with
    | inl hold => exact h.behind row hold stream hstream
    | inr hnew =>
      rw [hnew] at hstream ⊢
      exact hbehind stream hstream

end Commit

end Registry

end AgenticPrd
