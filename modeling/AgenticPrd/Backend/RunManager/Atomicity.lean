import AgenticPrd.Backend.RunManager.Lemmas

/-!
When a commit or a transition that raises leaves everything as it was: the snapshot in memory, the
event stream, and both tables.
-/

namespace AgenticPrd

namespace RunManager

open Prog

variable {env : Env} {faults : Faults} {w : World}

def Unchanged (w w' : World) : Prop :=
  w'.snapshot = w.snapshot ∧ w'.eventStore = w.eventStore ∧ w'.runRow = w.runRow

-- Neither the INSERT of the next event nor the save after it raises.
def Writable (faults : Faults) (w : World) : Prop :=
  faults.insertRaises = false
    ∧
  faults.saveRaises = false
    ∧
  ∀ row ∈ w.eventStore.rows, row.sequence ≠ w.eventStore.sequence + 1

def CommitAtomic (env : Env) (faults : Faults) (mutation : Prog RunSnapshot Exn Unit)
    (event : Option RunEventType) (w : World) : Prop :=
  match mutation.run w.snapshot with
  | (.error _, s) => s = w.snapshot
  | (.ok _, s) =>
    match event with
    | none => faults.saveRaises = true → (stamped env (w.withSnapshot s)).snapshot = w.snapshot
    | some event =>
      (ValidIteration s.currentIteration → event.isTransient = false → Writable faults w)
        ∧
      (¬ValidIteration s.currentIteration → (stamped env (w.withSnapshot s)).snapshot = w.snapshot)

def TransitionAtomic (faults : Faults) (target : RunStatus) (event : RunEventType) (w : World) :
    Prop :=
  w.snapshot.status.canTransition target = false
    ∨
  ValidIteration w.snapshot.currentIteration
    ∧
  faults.saveRaises = false
    ∧
  (event.isTransient = false → Writable faults w)

theorem not_unchanged_of_sequence {w w' : World} (h : w'.eventStore.sequence ≠ w.eventStore.sequence) :
    ¬Unchanged w w' := by
  intro hunchanged
  apply h
  rw [hunchanged.2.1]

theorem published_sequence (e : RunEvent) (w : World) :
    (published e w).eventStore.sequence = e.sequence := by
  unfold published
  split <;> rfl

theorem stamped_frame (env : Env) (w : World) :
    (stamped env w).eventStore = w.eventStore ∧ (stamped env w).runRow = w.runRow
      ∧
    (stamped env w).snapshot.currentIteration = w.snapshot.currentIteration
      ∧
    (stamped env w).snapshot.status = w.snapshot.status := by
  obtain ⟨now, elapsed, ticks, _, h⟩ := stamped_eq env w
  rw [h]
  exact ⟨rfl, rfl, rfl, rfl⟩

/--
A publication that starts from the stores of `w` leaves them as they are when it raises, except that
it raises after the event has been given a sequence.
-/
theorem publish_unchanged {w' : World} {durable : Bool} {event : RunEventType} {payload : Payload}
    (hstore : w'.eventStore = w.eventStore) (hrow : w'.runRow = w.runRow)
    (hdurable : event.isTransient = false → durable = true) :
    wp (publish env faults durable (some event) payload) w' (fun _ _ => True)
        (fun _ w' => Unchanged w w')
      ↔
    (ValidIteration w'.snapshot.currentIteration →
      (durable = true → faults.saveRaises = false)
        ∧ (event.isTransient = false → Writable faults w))
      ∧
    (¬ValidIteration w'.snapshot.currentIteration → w'.snapshot = w.snapshot) := by
  rw [wp_publish]
  cases heq : envelope? env w' event payload with
  | none =>
    have hinvalid : ¬ValidIteration w'.snapshot.currentIteration := envelope?_eq_none_iff.mp heq
    simp [Unchanged, hinvalid, hstore, hrow]
  | some e =>
    obtain ⟨hsequence, hkept, _⟩ := envelope?_fields heq
    have hvalid : ValidIteration w'.snapshot.currentIteration := by
      by_contra hinvalid
      rw [envelope?_eq_none_iff.mpr hinvalid] at heq
      contradiction
    rw [hstore] at hsequence
    have hbuffered : ¬Unchanged w (buffered e w'.tick) := by
      apply not_unchanged_of_sequence
      change e.sequence ≠ w.eventStore.sequence
      omega
    have hpublished : ¬Unchanged w (published e w'.tick) := by
      apply not_unchanged_of_sequence
      rw [published_sequence]
      omega
    simp only [InsertFails, hbuffered, hpublished, hvalid, hstore, hsequence, hkept]
    cases htransient : event.isTransient with
    | true => cases durable <;> simp
    | false =>
      rw [hdurable htransient]
      unfold Writable
      cases faults.insertRaises <;> cases faults.saveRaises <;> simp

theorem publish_none_unchanged {w' : World} {durable : Bool} {payload : Payload}
    (hstore : w'.eventStore = w.eventStore) (hrow : w'.runRow = w.runRow) :
    wp (publish env faults durable none payload) w' (fun _ _ => True) (fun _ w' => Unchanged w w')
      ↔
    (faults.saveRaises = true → w'.snapshot = w.snapshot) := by
  rw [wp_publish_none]
  cases faults.saveRaises with
  | true => simp [Unchanged, hstore, hrow]
  | false => simp

theorem commit_unchanged (mutation : Prog RunSnapshot Exn Unit) (event : Option RunEventType)
    (payload : RunSnapshot → Payload) :
    wp (commit env faults mutation event payload) w (fun _ _ => True) (fun _ w' => Unchanged w w')
      ↔
    CommitAtomic env faults mutation event w := by
  rw [wp_commit]
  unfold CommitAtomic
  cases heq : mutation.run w.snapshot with
  | mk result s =>
    cases result with
    | error exn =>
      rw [wp_of_run_error heq]
      simp [Unchanged, World.withSnapshot]
    | ok _ =>
      rw [wp_of_run_ok heq]
      have hframe := stamped_frame env (w.withSnapshot s)
      have hstore : (stamped env (w.withSnapshot s)).eventStore = w.eventStore := hframe.1
      have hrow : (stamped env (w.withSnapshot s)).runRow = w.runRow := hframe.2.1
      have hiteration : ValidIteration (stamped env (w.withSnapshot s)).snapshot.currentIteration
          ↔ ValidIteration s.currentIteration := by
        rw [hframe.2.2.1]
        rfl
      cases event with
      | none => exact publish_none_unchanged hstore hrow
      | some event =>
        have hdurable : event.isTransient = false → isSaved (some event) = true := by
          intro htransient
          simp [isSaved, htransient]
        -- The save that may raise is the one of `Writable`.
        have hsaved :
            ((isSaved (some event) = true → faults.saveRaises = false)
                ∧ (event.isTransient = false → Writable faults w))
              ↔ (event.isTransient = false → Writable faults w) := by
          constructor
          . intro h
            exact h.2
          . intro h
            refine ⟨?_, h⟩
            intro hsaves
            have htransient : event.isTransient = false := by simpa [isSaved] using hsaves
            exact (h htransient).2.1
        dsimp only
        rw [publish_unchanged hstore hrow hdurable, hiteration, hsaved]

theorem transition_unchanged (target : RunStatus) (event : RunEventType) (payload : Payload) :
    wp (transition env faults target event payload) w (fun _ _ => True)
        (fun _ w' => Unchanged w w')
      ↔
    TransitionAtomic faults target event w := by
  rw [wp_transition]
  unfold TransitionAtomic
  cases hlegal : w.snapshot.status.canTransition target with
  | false => simp [Unchanged]
  | true =>
    have hmoved := moved_frame env target w
    have hframe := stamped_frame env (moved env target w)
    have hstore : (stamped env (moved env target w)).eventStore = w.eventStore := by
      rw [hframe.1, hmoved.1]
    have hrow : (stamped env (moved env target w)).runRow = w.runRow := by
      rw [hframe.2.1, hmoved.2.1]
    have hiteration : ValidIteration (stamped env (moved env target w)).snapshot.currentIteration
        ↔ ValidIteration w.snapshot.currentIteration := by
      rw [hframe.2.2.1, hmoved.2.2.1]
    have hsnapshot : (stamped env (moved env target w)).snapshot ≠ w.snapshot := by
      intro heq
      apply RunStatus.ne_of_canTransition hlegal
      rw [← hmoved.2.2.2, ← hframe.2.2.2, heq]
    simp only [if_true]
    rw [publish_unchanged hstore hrow fun _ => rfl, hiteration]
    simp only [hsnapshot, Bool.true_eq_false, false_or, imp_false, not_not]
    constructor
    . rintro ⟨hwritable, hvalid⟩
      obtain ⟨hsaves, hinserts⟩ := hwritable hvalid
      exact ⟨hvalid, hsaves trivial, hinserts⟩
    . rintro ⟨hvalid, hsaves, hinserts⟩
      exact ⟨fun _ => ⟨fun _ => hsaves, hinserts⟩, hvalid⟩

/--
A commit or a transition is all-or-nothing exactly when it can only fail before it has written
anything.
-/
theorem atomic_iff (env : Env) (faults : Faults) (w : World) :
    (
      ∀ (mutation : Prog RunSnapshot Exn Unit) (event : Option RunEventType)
          (payload : RunSnapshot → Payload),
        (
          ∀ exn w', (commit env faults mutation event payload).run w = (.error exn, w') →
            Unchanged w w'
        )
          ↔
        CommitAtomic env faults mutation event w
    )
      ∧
    (
      ∀ (target : RunStatus) (event : RunEventType) (payload : Payload),
        (
          ∀ exn w', (transition env faults target event payload).run w = (.error exn, w') →
            Unchanged w w'
        )
          ↔
        TransitionAtomic faults target event w
    ) := by
  constructor
  . intro mutation event payload
    rw [← commit_unchanged mutation event payload, wp_error_iff]
  . intro target event payload
    rw [← transition_unchanged target event payload, wp_error_iff]

-- A fresh run that starts to generate when the INSERT raises.
theorem not_atomic :
    ¬(
      (
        ∀ (env : Env) (faults : Faults) (w : World) (mutation : Prog RunSnapshot Exn Unit)
            (event : Option RunEventType) (payload : RunSnapshot → Payload) (exn : Exn) (w' : World),
          (commit env faults mutation event payload).run w = (.error exn, w') → Unchanged w w'
      )
        ∧
      (
        ∀ (env : Env) (faults : Faults) (w : World) (target : RunStatus) (event : RunEventType)
            (payload : Payload) (exn : Exn) (w' : World),
          (transition env faults target event payload).run w = (.error exn, w') → Unchanged w w'
      )
    ) := by
  intro hclaim
  let faults : Faults :=
    {
      insertRaises := true
      saveRaises := false
    }
  have hunchanged := wp_error_iff.mpr
    (hclaim.2 mockEnv faults mockWorld .generating .statusChanged [])
  rw [transition_unchanged] at hunchanged
  cases hunchanged with
  | inl hillegal => exact absurd hillegal (by decide +kernel)
  | inr hwritable => exact absurd (hwritable.2.2 rfl).1 (by decide)

end RunManager

end AgenticPrd
