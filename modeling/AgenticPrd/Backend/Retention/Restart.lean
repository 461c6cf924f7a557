import AgenticPrd.Backend.Retention.Invariant

/-!
What a new process holds: the runs of the database as far as they are retained, and of the events
those of these runs.
-/

namespace AgenticPrd

namespace SQLiteRunStore

variable {utc : Nat → Timestamp} {ticks : Nat} {rows : List RunSnapshot} {snapshot : RunSnapshot}

theorem loadSnapshot_runId (now : Timestamp) (row : RunSnapshot) :
    (loadSnapshot now row).runId = row.runId := by
  unfold loadSnapshot
  split <;> rfl

theorem loadSnapshot_latestEventSequence (now : Timestamp) (row : RunSnapshot) :
    (loadSnapshot now row).latestEventSequence = row.latestEventSequence := by
  unfold loadSnapshot
  split <;> rfl

theorem loadSnapshot_isTerminal (now : Timestamp) (row : RunSnapshot) :
    (loadSnapshot now row).status.isTerminal = true := by
  rw [loadSnapshot_status]
  split
  . next hended => exact hended
  . rfl

theorem mem_loadRows (h : snapshot ∈ loadRows utc ticks rows) :
    ∃ row ∈ rows, ∃ now, snapshot = loadSnapshot now row := by
  induction rows generalizing ticks with
  | nil => contradiction
  | cons row rows ih =>
    cases List.mem_cons.mp h with
    | inl hhead => exact ⟨row, List.mem_cons_self, _, hhead⟩
    | inr hmem =>
      obtain ⟨row', hrow, hload⟩ := ih hmem
      exact ⟨row', List.mem_cons_of_mem _ hrow, hload⟩

theorem loadRows_runIds (utc : Nat → Timestamp) (ticks : Nat) (rows : List RunSnapshot) :
    (loadRows utc ticks rows).map RunSnapshot.runId = rows.map RunSnapshot.runId := by
  induction rows generalizing ticks with
  | nil => rfl
  | cons row rows ih =>
    unfold loadRows
    rw [List.map_cons, List.map_cons, ih, loadSnapshot_runId]

end SQLiteRunStore

namespace Registry

open SQLiteRunStore

variable {r : Registry} {settings : RetentionSettings} {utc : Nat → Timestamp}

section Rows

theorem newestFirst_perm (rows : List (RunId × RunSnapshot)) :
    (newestFirst rows).Perm (rows.map Prod.snd) :=
  List.perm_insertionSort _ _

theorem runIds_newestFirst (hnamed : ∀ entry ∈ r.runRows, entry.2.runId = entry.1) :
    ((newestFirst r.runRows).map RunSnapshot.runId).Perm (Record.keys r.runRows) := by
  have hkeys : (r.runRows.map Prod.snd).map RunSnapshot.runId = Record.keys r.runRows := by
    rw [List.map_map]
    apply List.map_congr_left
    exact hnamed
  rw [← hkeys]
  exact (newestFirst_perm _).map _

theorem mem_interrupted {rows loaded : List RunSnapshot} {snapshot : RunSnapshot}
    (h : snapshot ∈ interrupted rows loaded) : snapshot ∈ loaded := by
  unfold interrupted at h
  rw [List.mem_map] at h
  obtain ⟨pair, hpair, rfl⟩ := h
  exact (List.of_mem_zip (List.mem_filter.mp hpair).1).2

-- What the table holds after some snapshots of its runs are stored again.
theorem foldl_persist_runRows {snapshots : List RunSnapshot} (r : Registry)
    (hkeys : ∀ snapshot ∈ snapshots, snapshot.runId ∈ Record.keys r.runRows) :
    (
      Record.keys (snapshots.foldl (fun r snapshot => r.persist snapshot) r).runRows
        =
      Record.keys r.runRows
    )
      ∧
    (
      ∀ entry ∈ (snapshots.foldl (fun r snapshot => r.persist snapshot) r).runRows,
        entry ∈ r.runRows ∨ ∃ snapshot ∈ snapshots, entry = (snapshot.runId, snapshot)
    )
      ∧
    (snapshots.foldl (fun r snapshot => r.persist snapshot) r).eventRows = r.eventRows := by
  induction snapshots generalizing r with
  | nil => exact ⟨rfl, fun _ h => .inl h, rfl⟩
  | cons first snapshots ih =>
    rw [List.forall_mem_cons] at hkeys
    have hfirst : Record.keys (r.persist first).runRows = Record.keys r.runRows :=
      Record.keys_set_of_mem _ hkeys.1
    obtain ⟨hall, hentries, hevents⟩ := ih (r.persist first) (by rw [hfirst]; exact hkeys.2)
    refine ⟨hall.trans hfirst, ?_, hevents⟩
    intro entry hentry
    cases hentries entry hentry with
    | inl hold =>
      cases Record.mem_set hold with
      | inl hmem => exact .inl hmem
      | inr hnew => exact .inr ⟨first, List.mem_cons_self, hnew⟩
    | inr hnew =>
      obtain ⟨snapshot, hmem, heq⟩ := hnew
      exact .inr ⟨snapshot, List.mem_cons_of_mem _ hmem, heq⟩

end Rows

section Load

/--
`r'` holds, of the runs in the database of `r`, some as they are loaded. All of them have ended.
-/
structure Loaded (r r' : Registry) : Prop where
  nodup : (Record.keys r'.runs).Nodup
  locks : Record.keys r'.locks = Record.keys r'.runs
  rows : (Record.keys r'.runRows).Perm (Record.keys r'.runs)
  runsNamed : ∀ entry ∈ r'.runs, entry.2.runId = entry.1
  rowsNamed : ∀ entry ∈ r'.runRows, entry.2.runId = entry.1
  ended : ∀ entry ∈ r'.runs, entry.2.status.isTerminal = true
  sameRuns :
    ∀ entry ∈ r'.runs, ∃ row ∈ r.runRows,
      row.1 = entry.1 ∧ entry.2.latestEventSequence = row.2.latestEventSequence
  sameRows :
    ∀ entry ∈ r'.runRows, ∃ row ∈ r.runRows,
      row.1 = entry.1 ∧ entry.2.latestEventSequence = row.2.latestEventSequence
  eventRows : r'.eventRows = r.eventRows

theorem row_of_loaded (hnamed : ∀ entry ∈ r.runRows, entry.2.runId = entry.1) {ticks : Nat}
    {snapshot : RunSnapshot} (h : snapshot ∈ loadRows utc ticks (newestFirst r.runRows)) :
    snapshot.status.isTerminal = true
      ∧
    ∃ row ∈ r.runRows,
      row.1 = snapshot.runId ∧ snapshot.latestEventSequence = row.2.latestEventSequence := by
  obtain ⟨row, hrow, now, rfl⟩ := mem_loadRows h
  refine ⟨loadSnapshot_isTerminal now row, ?_⟩
  rw [loadSnapshot_runId, loadSnapshot_latestEventSequence]
  obtain ⟨entry, hentry, rfl⟩ := List.mem_map.mp ((newestFirst_perm _).mem_iff.mp hrow)
  exact ⟨entry, hentry, (hnamed entry hentry).symm, rfl⟩

theorem Inv.loaded (h : r.Inv) (settings : RetentionSettings) (utc : Nat → Timestamp) :
    Loaded r (r.loadSnapshots settings utc) := by
  have hrowsNodup : (Record.keys r.runRows).Nodup := h.rows.nodup_iff.mpr h.nodup
  have hids := loadRows_runIds utc 0 (newestFirst r.runRows)
  have hrows := runIds_newestFirst h.rowsNamed
  rw [← hids] at hrows
  generalize hloaded : loadRows utc 0 (newestFirst r.runRows) = loaded at hids hrows
  have hrow : ∀ snapshot ∈ loaded, snapshot.status.isTerminal = true
      ∧ ∃ row ∈ r.runRows,
        row.1 = snapshot.runId ∧ snapshot.latestEventSequence = row.2.latestEventSequence := by
    rw [← hloaded]
    exact fun snapshot hmem => row_of_loaded h.rowsNamed hmem
  have hnodup : (loaded.map RunSnapshot.runId).Nodup := hrows.nodup_iff.mpr hrowsNodup
  have hruns : Record.update [] (loaded.map fun snapshot => (snapshot.runId, snapshot))
      = loaded.map fun snapshot => (snapshot.runId, snapshot) := by
    apply Record.update_of_nodup
    rw [List.nil_append, List.map_map]
    exact hnodup
  have hlocks : Record.update [] (loaded.map fun snapshot => (snapshot.runId, ()))
      = loaded.map fun snapshot => (snapshot.runId, ()) := by
    apply Record.update_of_nodup
    rw [List.nil_append, List.map_map]
    exact hnodup
  have hstored : ∀ snapshot ∈ interrupted (newestFirst r.runRows) loaded,
      snapshot.runId ∈ Record.keys r.runRows := by
    intro snapshot hsnapshot
    obtain ⟨_, row, hmem, heq, _⟩ := hrow snapshot (mem_interrupted hsnapshot)
    rw [← heq]
    exact List.mem_map_of_mem hmem
  obtain ⟨hkeys, hentries, hevents⟩ := foldl_persist_runRows r hstored
  unfold loadSnapshots
  dsimp only
  rw [hloaded, hruns, hlocks]
  have hrunKeys : Record.keys (loaded.map fun snapshot => (snapshot.runId, snapshot))
      = loaded.map RunSnapshot.runId := by
    unfold Record.keys
    rw [List.map_map]
    rfl
  refine {
    nodup := ?_
    locks := ?_
    rows := ?_
    runsNamed := ?_
    rowsNamed := ?_
    ended := ?_
    sameRuns := ?_
    sameRows := ?_
    eventRows := hevents
  }
  . rw [hrunKeys]
    exact hnodup
  . rw [hrunKeys]
    unfold Record.keys
    rw [List.map_map]
    rfl
  . rw [hrunKeys]
    dsimp only
    rw [hkeys]
    exact hrows.symm
  . intro entry hentry
    obtain ⟨snapshot, _, rfl⟩ := List.mem_map.mp hentry
    rfl
  . intro entry hentry
    cases hentries entry hentry with
    | inl hold => exact h.rowsNamed entry hold
    | inr hnew =>
      obtain ⟨snapshot, _, rfl⟩ := hnew
      rfl
  . intro entry hentry
    obtain ⟨snapshot, hsnapshot, rfl⟩ := List.mem_map.mp hentry
    exact (hrow snapshot hsnapshot).1
  . intro entry hentry
    obtain ⟨snapshot, hsnapshot, rfl⟩ := List.mem_map.mp hentry
    exact (hrow snapshot hsnapshot).2
  . intro entry hentry
    cases hentries entry hentry with
    | inl hold => exact ⟨entry, hold, rfl, rfl⟩
    | inr hnew =>
      obtain ⟨snapshot, hsnapshot, rfl⟩ := hnew
      exact (hrow snapshot (mem_interrupted hsnapshot)).2

theorem Loaded.delete {r' : Registry} (h : Loaded r r') (gone : List RunId) :
    Loaded r ((r'.deleteRuns gone).deleteRows gone) := by
  have hkeys : ∀ {α : Type} (record : List (RunId × α)),
      Record.keys (Record.eraseAll record gone) = (Record.keys record).filter (· ∉ gone) :=
    fun record => Record.keys_eraseAll record gone
  refine {
    nodup := ?_
    locks := ?_
    rows := ?_
    runsNamed := fun entry hentry => h.runsNamed entry (Record.mem_of_mem_eraseAll hentry)
    rowsNamed := fun entry hentry => h.rowsNamed entry (Record.mem_of_mem_eraseAll hentry)
    ended := fun entry hentry => h.ended entry (Record.mem_of_mem_eraseAll hentry)
    sameRuns := fun entry hentry => h.sameRuns entry (Record.mem_of_mem_eraseAll hentry)
    sameRows := fun entry hentry => h.sameRows entry (Record.mem_of_mem_eraseAll hentry)
    eventRows := h.eventRows
  }
  . unfold deleteRuns deleteRows
    rw [hkeys]
    exact h.nodup.filter _
  . unfold deleteRuns deleteRows
    rw [hkeys, hkeys, h.locks]
  . unfold deleteRuns deleteRows
    rw [hkeys, hkeys]
    exact h.rows.filter _

variable {r' : Registry}

theorem Loaded.length_candidates (h : Loaded r r') : r'.candidates.length = r'.runs.length := by
  unfold candidates
  rw [List.length_map, List.filter_eq_self.mpr h.ended]

theorem length_deleteRuns (hnodup : (Record.keys r.runs).Nodup) (needed : Nat) :
    (r.deleteRuns (r.evictableRunIds needed)).runs.length + min needed r.candidates.length
      =
    r.runs.length := by
  rw [← length_evictableRunIds]
  apply Record.length_eraseAll hnodup (nodup_evictableRunIds hnodup)
  intro key hkey
  obtain ⟨snapshot, hmem, _⟩ := mem_evictableRunIds hkey
  exact Record.mem_keys hmem

theorem Loaded.retained (h : Loaded r r') :
    Loaded r r'.enforceRetentionOnLoad
      ∧
    r'.enforceRetentionOnLoad.runs.length ≤ r'.enforceRetentionOnLoad.settings.maxRetainedRuns := by
  unfold enforceRetentionOnLoad
  dsimp only
  split
  . refine ⟨h, ?_⟩
    omega
  . refine ⟨h.delete _, ?_⟩
    have hlength := length_deleteRuns h.nodup (r'.runs.length - r'.settings.maxRetainedRuns)
    rw [h.length_candidates] at hlength
    change (r'.deleteRuns _).runs.length ≤ r'.settings.maxRetainedRuns
    omega

end Load

section Adopt

variable {r' : Registry} {runId : RunId} {snapshot : RunSnapshot}

theorem le_adopted (r : Registry) (runId : RunId) (snapshot : RunSnapshot) :
    snapshot.latestEventSequence ≤ (r.adopted runId snapshot).sequence :=
  (SQLiteEventStore.le_foldl_max _ _).1

theorem adopted_pos (r : Registry) (runId : RunId) (snapshot : RunSnapshot)
    (hpos : 1 ≤ snapshot.latestEventSequence → r.rowsOf runId ≠ []) :
    1 ≤ (r.adopted runId snapshot).sequence ↔ r.rowsOf runId ≠ [] := by
  constructor
  . intro hone
    by_cases hlatest : 1 ≤ snapshot.latestEventSequence
    . exact hpos hlatest
    . intro hnil
      unfold adopted SQLiteEventStore.adopt SQLiteEventStore.orderBySequence at hone
      rw [hnil, List.insertionSort_nil, List.rtake_nil] at hone
      exact hlatest hone
  . intro hrows
    have hordered : SQLiteEventStore.orderBySequence (r.rowsOf runId) ≠ [] := by
      intro hnil
      apply hrows
      have hlength := (List.perm_insertionSort
        (fun a b : RunEvent => a.sequence ≤ b.sequence) (r.rowsOf runId)).length_eq
      unfold SQLiteEventStore.orderBySequence at hnil
      rw [hnil] at hlength
      exact List.length_eq_zero_iff.mp hlength.symm
    have hbuffer : 1 ≤ r.settings.eventBufferSize := by
      have := r.settings.buffer_range
      omega
    obtain ⟨e, he⟩ := List.exists_mem_of_ne_nil _ (Suffix.rtake_ne_nil hbuffer hordered)
    have hle := (SQLiteEventStore.le_foldl_max _ snapshot.latestEventSequence).2 e he
    exact e.sequence_pos.trans hle

theorem mem_eventRuns : runId ∈ r.eventRows.map RunEvent.runId ↔ r.rowsOf runId ≠ [] := by
  rw [List.mem_map]
  constructor
  . rintro ⟨e, he, heq⟩
    apply List.ne_nil_of_mem (a := e)
    unfold rowsOf
    rw [List.mem_filter, decide_eq_true_eq]
    exact ⟨he, heq⟩
  . intro hrows
    obtain ⟨e, he⟩ := List.exists_mem_of_ne_nil _ hrows
    unfold rowsOf at he
    rw [List.mem_filter, decide_eq_true_eq] at he
    exact ⟨e, he⟩

-- A run whose row says that it has had an event has one in the table.
theorem Inv.rowsOf_ne_nil (h : r.Inv) {row : RunId × RunSnapshot} (hrow : row ∈ r.runRows)
    (hpos : 1 ≤ row.2.latestEventSequence) : r.rowsOf row.1 ≠ [] := by
  have hkey : row.1 ∈ Record.keys r.streams := by
    rw [h.streams, ← h.rows.mem_iff]
    exact List.mem_map_of_mem hrow
  cases hstream : Record.get? r.streams row.1 with
  | none =>
    have := Record.get?_eq_none_iff.mp hstream
    contradiction
  | some stream =>
    rw [← mem_eventRuns, ← h.started row.1 stream hstream]
    exact hpos.trans (h.behind row hrow stream hstream)

theorem Inv.adopt (h : r.Inv) (hloaded : Loaded r r')
    (hretained : r'.runs.length ≤ r'.settings.maxRetainedRuns) : r'.adoptRetainedRuns.Inv := by
  have hstreams : Record.keys r'.adoptRetainedRuns.streams = Record.keys r'.runs := by
    unfold adoptRetainedRuns Record.keys
    rw [List.map_map]
    rfl
  have hstream : ∀ id, ∀ stream ∈ Record.get? r'.adoptRetainedRuns.streams id,
      ∃ snapshot, (id, snapshot) ∈ r'.runs
        ∧ stream = (r'.adopted id snapshot).toEventStore := by
    intro id stream hid
    obtain ⟨entry, hentry, heq⟩ := List.mem_map.mp (Record.mem_of_get? hid)
    rw [Prod.mk.injEq] at heq
    obtain ⟨rfl, rfl⟩ := heq
    exact ⟨entry.2, hentry, rfl⟩
  refine {
    nodup := hloaded.nodup
    locks := hloaded.locks
    streams := hstreams
    rows := hloaded.rows
    runsNamed := hloaded.runsNamed
    rowsNamed := hloaded.rowsNamed
    active := ?_
    retained := hretained
    started := ?_
    owned := ?_
    behind := ?_
  }
  . have hnone : r'.adoptRetainedRuns.activeCount = 0 := by
      unfold activeCount
      rw [List.countP_eq_zero]
      intro entry hentry hactive
      unfold isActive at hactive
      rw [hloaded.ended entry hentry] at hactive
      contradiction
    rw [hnone]
    exact Nat.zero_le _
  . intro id stream hid
    obtain ⟨snapshot, hmem, rfl⟩ := hstream id stream hid
    have hkept : id ∈ r'.adoptRetainedRuns.eventRows.map RunEvent.runId
        ↔ id ∈ r'.eventRows.map RunEvent.runId := by
      unfold adoptRetainedRuns
      simp only [List.mem_map, List.mem_filter, decide_eq_true_eq]
      constructor
      . rintro ⟨e, ⟨he, _⟩, heq⟩
        exact ⟨e, he, heq⟩
      . rintro ⟨e, he, rfl⟩
        exact ⟨e, ⟨he, Record.mem_keys hmem⟩, rfl⟩
    rw [hkept, mem_eventRuns]
    apply adopted_pos
    intro hpos
    obtain ⟨row, hrow, hid, hlatest⟩ := hloaded.sameRuns _ hmem
    rw [hlatest] at hpos
    have hne := h.rowsOf_ne_nil hrow hpos
    rw [hid] at hne
    unfold rowsOf
    rw [hloaded.eventRows]
    exact hne
  . intro e he
    exact of_decide_eq_true (List.mem_filter.mp he).2
  . intro row hrow stream hid
    obtain ⟨snapshot, hmem, rfl⟩ := hstream row.1 stream hid
    obtain ⟨source, hsource, hname, hlatest⟩ := hloaded.sameRuns _ hmem
    obtain ⟨source', hsource', hname', hlatest'⟩ := hloaded.sameRows _ hrow
    have hsame : source' = source := by
      have hrowsNodup : (Record.keys r.runRows).Nodup := h.rows.nodup_iff.mpr h.nodup
      have hget := Record.get?_of_mem hrowsNodup hsource
      have hget' := Record.get?_of_mem hrowsNodup hsource'
      rw [hname'] at hget'
      rw [hname, hget', Option.some.injEq] at hget
      exact Prod.ext (hname'.trans hname.symm) hget
    rw [hlatest', hsame, ← hlatest]
    exact le_adopted r' row.1 snapshot

theorem Inv.restart (h : r.Inv) (settings : RetentionSettings) (utc : Nat → Timestamp) :
    (r.restart settings utc).Inv := by
  have hloaded := (h.loaded settings utc).retained
  exact h.adopt hloaded.1 hloaded.2

end Adopt

end Registry

end AgenticPrd
