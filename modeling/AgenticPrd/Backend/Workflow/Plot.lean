import AgenticPrd.Backend.RunManager.Spec
import AgenticPrd.Backend.Workflow.Rounds

/-!
The course of the loop as it shows in the snapshot, and the operations of the run manager on it. As
long as the database does not fail, they raise nothing but an illegal transition.
-/

namespace AgenticPrd

/--
What the nodes hand on to each other by way of the snapshot. `document` is the one that is up for
review, and `isOver` is whether the run has ended other than by a cancellation.
-/
structure Plot where
  outputLanguage : String
  currentIteration : Nat
  versions : List PRDVersion
  document : Option String
  reviews : ReviewRole → Option RoleReview
  latestEvaluation : Option EvaluationResult
  isOver : Bool

namespace Plot

-- The plot with one more review.
def reviewed (role : ReviewRole) (review : RoleReview) (p : Plot) : Plot :=
  { p with reviews := Function.update p.reviews role (some review) }

-- The plot with one more version.
def written (version : PRDVersion) (p : Plot) : Plot :=
  {
    p with
    versions := p.versions ++ [version]
    document := some version.content
  }

-- The reviews of the plot are the three of an evaluation.
def JudgedBy (p : Plot) (evaluation : EvaluationResult) : Prop :=
  p.reviews .tech = some evaluation.tech
    ∧ p.reviews .ux = some evaluation.ux
    ∧ p.reviews .biz = some evaluation.biz

-- The plot with the evaluation of its last version.
def judged (evaluation : EvaluationResult) (p : Plot) : Plot :=
  {
    p with
    latestEvaluation := some evaluation
    versions := p.versions.modifyLast fun version => { version with evaluation := some evaluation }
  }

-- The plot of a run that has come to an outcome.
def concluded (p : Plot) : Plot :=
  { p with isOver := true }

-- The plot of the next round.
def advanced (p : Plot) : Plot :=
  {
    p with
    currentIteration := p.currentIteration + 1
    document := none
    reviews := fun _ => none
  }

-- The version of the iteration is still to come, or it is there.
def IsPending (p : Plot) : Prop :=
  p.currentIteration = p.versions.length + 1

def IsWritten (p : Plot) : Prop :=
  p.currentIteration = p.versions.length

end Plot

def RunStatus.isOver (status : RunStatus) : Bool :=
  status.isTerminal && status ≠ .cancelled

theorem RunStatus.isOver_of_canTransition {current target : RunStatus}
    (hlegal : current.canTransition target = true) : current.isOver = false := by
  unfold isOver
  cases hterminal : current.isTerminal with
  | false => rfl
  | true =>
    rw [not_canTransition_of_isTerminal hterminal] at hlegal
    contradiction

def RunSnapshot.plot (snapshot : RunSnapshot) : Plot :=
  {
    outputLanguage := snapshot.outputLanguage
    currentIteration := snapshot.currentIteration
    versions := snapshot.versions
    document :=
      if snapshot.currentIteration = snapshot.versions.length then some snapshot.currentPrd else none
    reviews := snapshot.reviews
    latestEvaluation := snapshot.latestEvaluation
    isOver := snapshot.status.isOver
  }

namespace Workflow

open RunManager Prog

variable {env : Env} {G G' : Plot → Prop} {F F' : Exn → Prop} {w : World}

-- The plot is one of `G`, and the sequence of the store is not behind its rows.
def Sane (G : Plot → Prop) (w : World) : Prop :=
  G w.snapshot.plot ∧ ∀ row ∈ w.eventStore.rows, row.sequence ≤ w.eventStore.sequence

-- A transition that the state machine does not allow.
def Illegal (exn : Exn) : Prop :=
  ∃ current target, exn = .illegalTransition current target

-- The plots are those of a run, and the exceptions include the illegal transitions.
structure Admits (G : Plot → Prop) (F : Exn → Prop) : Prop where
  iteration : ∀ p, G p → ValidIteration p.currentIteration
  illegal : ∀ exn, Illegal exn → F exn

section Commit

theorem Sane.congr {w' : World} (h : Sane G w) (hplot : w'.snapshot.plot = w.snapshot.plot)
    (hstore : w'.eventStore = w.eventStore) : Sane G w' := by
  unfold Sane
  rw [hplot, hstore]
  exact h

theorem sane_published {e : RunEvent} (h : Sane G w) (hsequence : e.sequence = w.eventStore.sequence + 1) :
    Sane G (published e w) := by
  have hstore : (published e w).eventStore = w.eventStore.pushRow e := by
    unfold published
    split <;> rfl
  unfold Sane
  rw [(published_frame e w).1, hstore]
  refine ⟨h.1, ?_⟩
  intro row hrow
  change row.sequence ≤ e.sequence
  cases SQLiteEventStore.mem_pushRow_rows.mp hrow with
  | inl hold =>
    have hle := h.2 row hold
    omega
  | inr hnew => rw [hnew.2]

theorem wp_publish_sane (hadmits : Admits G F) (h : Sane G w) {durable : Bool} {event : Option RunEventType}
    {payload : Payload} :
    wp (publish env .none durable event payload) w
      (fun envelope w' => Sane G (journaled envelope w') ∧ G w'.snapshot.plot)
      fun exn w' => Sane G w' ∧ F exn := by
  cases event with
  | none =>
    rw [wp_publish_none]
    exact ⟨h.congr rfl rfl, h.1⟩
  | some event =>
    rw [wp_publish]
    cases heq : envelope? env w event payload with
    | none =>
      rw [envelope?_eq_none_iff] at heq
      exact absurd (hadmits.iteration _ h.1) heq
    | some e =>
      have hsequence := (envelope?_fields heq).1
      have hinserts : ¬InsertFails .none w e := by
        rintro ⟨_, hraises | ⟨row, hrow, hsame⟩⟩
        . contradiction
        . have hle := h.2 row hrow
          omega
      have hpublished : Sane G (published e w.tick) :=
        sane_published (h.congr rfl rfl) hsequence
      dsimp only
      rw [if_neg hinserts]
      split
      . exact ⟨hpublished, hpublished.1⟩
      . exact ⟨hpublished, hpublished.1⟩

theorem within_commit (hadmits : Admits G F) {mutation : Prog RunSnapshot Exn Unit}
    {event : Option RunEventType} {payload : RunSnapshot → Payload}
    (hmutation : Within (fun s => G s.plot) F (fun _ => True) mutation) :
    Within (Sane G) F (fun s => G s.plot) (commit env .none mutation event payload) := by
  intro w h
  rw [wp_commit]
  apply wp_mono (hmutation w.snapshot h.1)
  . rintro _ s ⟨hs, _⟩
    obtain ⟨now, elapsed, ticks, _, hstamped⟩ := stamped_eq env (w.withSnapshot s)
    rw [hstamped]
    apply wp_publish_sane hadmits
    exact ⟨hs, h.2⟩
  . rintro exn s ⟨hs, hexn⟩
    exact ⟨⟨hs, h.2⟩, hexn⟩

-- The commit of a node's result moves the plot on, if its mutation does not raise.
theorem shifts_commit (hadmits : Admits G' F') {mutation : Prog RunSnapshot Exn Unit}
    {event : Option RunEventType} {payload : RunSnapshot → Payload}
    (hmutation : ∀ s : RunSnapshot, G s.plot →
      wp mutation s (fun _ s' => G' s'.plot) fun exn s' => s' = s ∧ F exn) :
    Shifts (Sane G) (Sane G') F F' (fun _ => False) (fun _ => True)
      (commit env .none mutation event payload) := by
  intro w h
  rw [wp_commit]
  apply wp_mono (hmutation w.snapshot h.1)
  . intro _ s hs
    obtain ⟨now, elapsed, ticks, _, hstamped⟩ := stamped_eq env (w.withSnapshot s)
    rw [hstamped]
    have hsane : Sane G' { w.withSnapshot s with
        snapshot := (s.withUpdatedAt now).withElapsed elapsed, ticks } := ⟨hs, h.2⟩
    apply wp_mono (wp_publish_sane hadmits hsane)
    . intro envelope w' h'
      exact .inr ⟨h'.1, trivial⟩
    . intro exn w' h'
      exact .inr h'
  . rintro exn s ⟨rfl, hexn⟩
    exact .inl ⟨h, hexn⟩

-- A mutation that does not show in the plot.
theorem within_modify {f : RunSnapshot → RunSnapshot} (hf : ∀ s, (f s).plot = s.plot) :
    Within (fun s => G s.plot) F (fun _ => True) (modify f) := by
  apply Within.modify
  intro s hs
  rw [hf]
  exact hs

-- A draft does not show in it either.
theorem within_draft (hpending : ∀ p, G p → p.IsPending) {f : RunSnapshot → RunSnapshot}
    (hf : ∀ s, ∃ currentPrd currentPrdAttempt, f s = { s with currentPrd, currentPrdAttempt }) :
    Within (fun s => G s.plot) F (fun _ => True) (modify f) := by
  apply Within.modify
  intro s hs
  have hpending' : s.currentIteration = s.versions.length + 1 := hpending _ hs
  have hplot : (f s).plot = s.plot := by
    obtain ⟨currentPrd, currentPrdAttempt, heq⟩ := hf s
    rw [heq]
    simp [RunSnapshot.plot, hpending']
  rw [hplot]
  exact hs

theorem transition_sane {target : RunStatus} {event : RunEventType} {payload : Payload}
    (hadmits : Admits G F) (h : Sane G w)
    (hmoved : w.snapshot.status.canTransition target = true → G (moved env target w).snapshot.plot) :
    wp (transition env .none target event payload) w (fun s w' => Sane G w' ∧ G s.plot)
      (fun exn w' => Sane G w' ∧ F exn) := by
  rw [wp_transition]
  split
  . next hlegal =>
    obtain ⟨now, elapsed, ticks, _, hstamped⟩ := stamped_eq env (moved env target w)
    have hstore : (moved env target w).eventStore = w.eventStore := (moved_frame env target w).1
    rw [hstamped]
    apply wp_publish_sane hadmits
    refine ⟨hmoved hlegal, ?_⟩
    change ∀ row ∈ (moved env target w).eventStore.rows, row.sequence ≤ (moved env target w).eventStore.sequence
    rw [hstore]
    exact h.2
  . exact ⟨h, hadmits.illegal _ ⟨_, _, rfl⟩⟩

-- Only a run that is not over goes anywhere.
theorem within_transition (hadmits : Admits G F) {target : RunStatus} {event : RunEventType}
    {payload : Payload} (htarget : target.isOver = false) :
    Within (Sane G) F (fun s => G s.plot) (transition env .none target event payload) := by
  intro w h
  apply transition_sane hadmits h
  intro hlegal
  have hover := RunStatus.isOver_of_canTransition hlegal
  have hplot : (moved env target w).snapshot.plot = w.snapshot.plot := by
    unfold moved
    split
    . simp only [RunSnapshot.plot, World.mapSnapshot, World.withSnapshot, World.tick,
        RunSnapshot.withStatus, RunSnapshot.withEnd, hover, htarget]
      rfl
    . simp only [RunSnapshot.plot, World.mapSnapshot, World.withSnapshot, RunSnapshot.withStatus,
        hover, htarget]
      rfl
  rw [hplot]
  exact h.1

-- An outcome shows in the plot.
theorem within_conclude (hadmits : Admits G F) {target : RunStatus} {event : RunEventType}
    {payload : Payload} (htarget : target.isOver = true) (hconcluded : ∀ p, G p → G p.concluded) :
    Within (Sane G) F (fun s => G s.plot) (transition env .none target event payload) := by
  intro w h
  apply transition_sane hadmits h
  intro hlegal
  have hterminal : target.isTerminal = true := by
    unfold RunStatus.isOver at htarget
    simp at htarget
    exact htarget.1
  have hplot : (moved env target w).snapshot.plot = w.snapshot.plot.concluded := by
    unfold moved
    rw [hterminal]
    simp [RunSnapshot.plot, Plot.concluded, World.mapSnapshot, World.withSnapshot, World.tick,
      RunSnapshot.withStatus, RunSnapshot.withEnd, htarget]
  rw [hplot]
  exact hconcluded _ h.1

end Commit

section Manager

theorem within_monotonic : Within (Sane G) F (fun _ => True) (monotonic env) :=
  fun _ h => ⟨h.congr rfl rfl, trivial⟩

theorem within_utcNow : Within (Sane G) F (fun _ => True) (utcNow env) :=
  fun _ h => ⟨h.congr rfl rfl, trivial⟩

theorem within_remainingRunSeconds : Within (Sane G) F (fun _ => True) (remainingRunSeconds env) := by
  intro w h
  obtain ⟨elapsed, ticks, _, hrun⟩ := activeElapsed_run env w
  unfold remainingRunSeconds
  rw [wp_bind, wp_of_run_ok hrun, wp_pure]
  exact ⟨h.congr rfl rfl, trivial⟩

theorem within_get : Within (Sane G) F (Sane G) (get : Prog World Exn World) :=
  .get

-- Signals, calls and the record of an attempt do not matter.
theorem within_update {f : World → World}
    (hf : ∀ w : World, (f w).snapshot = w.snapshot ∧ (f w).eventStore = w.eventStore) :
    Within (Sane G) F (fun _ => True) (modify f) := by
  apply Within.modify
  intro w h
  exact h.congr (congrArg RunSnapshot.plot (hf w).1) (hf w).2

variable (hadmits : Admits G F)

include hadmits

theorem within_markNode {node : Node} {status : NodeStatus} {role : Option ReviewRole} :
    Within (Sane G) F (fun s => G s.plot) (markNode env node status role) :=
  within_commit hadmits (within_modify fun _ => rfl)

theorem within_recordUsage {node : Node} {usage : TokenUsage} :
    Within (Sane G) F (fun s => G s.plot) (recordUsage env node usage) :=
  within_commit hadmits (within_modify fun _ => rfl)

theorem within_recordTiming {node : Node} {version attempt : Nat} {seconds : ℚ} {succeeded : Bool}
    {usage : Option TokenUsage} (hversion : ValidIteration version) (hattempt : 1 ≤ attempt) :
    Within (Sane G) F (fun s => G s.plot)
      (recordTiming env node version attempt seconds succeeded usage) := by
  apply within_commit hadmits
  have hseconds : 0 ≤ Rounding.round (max 0 seconds) 2 := by
    have h : ((0 : ℤ) : ℚ) ≤ max 0 seconds := by simp
    exact_mod_cast Rounding.le_round 2 h
  obtain ⟨timing, hsome, _⟩ := NodeTiming.validate?_eq_some node hversion hattempt hseconds succeeded
    ((usage.map TokenUsage.inputTokens).getD 0) ((usage.map TokenUsage.outputTokens).getD 0)
  unfold timingMutation
  dsimp only
  rw [hsome]
  exact within_modify fun _ => rfl

theorem within_setStage {target : RunStatus} (htarget : target.isOver = false) :
    Within (Sane G) F (fun s => G s.plot) (setStage env target) := by
  unfold setStage
  apply Within.bind within_get
  intro w h
  split
  . exact .pure h.1
  . split
    . exact .pure h.1
    . exact within_transition hadmits htarget

theorem within_enterPaused : Within (Sane G) F (fun _ => True) (enterPaused env) := by
  unfold enterPaused
  apply Within.bind within_get
  intro _ _
  apply Within.bind (within_transition hadmits rfl)
  intro _ _
  apply Within.bind within_monotonic
  intro now _
  apply Within.bind (within_update (f := World.park now) fun _ => ⟨rfl, rfl⟩)
  intro _ _
  exact .pure trivial

section Requests

theorem within_requestPause : Within (Sane G) (fun _ => True) (fun _ => True) (requestPause env) := by
  have hadmits' : Admits G fun _ => True := ⟨hadmits.iteration, fun _ _ => trivial⟩
  unfold requestPause
  apply Within.bind within_get
  intro w _
  split
  . exact .throw trivial
  . split
    . exact .pure trivial
    . split
      . exact (within_transition hadmits' rfl).mono fun _ _ => trivial
      . exact .throw trivial

theorem within_finalizeCancel : Within (Sane G) F (fun _ => True) (finalizeCancel env) := by
  unfold finalizeCancel
  apply Within.bind within_get
  intro w _
  split
  . exact .pure trivial
  . split
    . exact .pure trivial
    . exact (within_transition hadmits rfl).mono fun _ _ => trivial

theorem within_cancelRun : Within (Sane G) (fun _ => True) (fun _ => True) (cancelRun env) := by
  have hadmits' : Admits G fun _ => True := ⟨hadmits.iteration, fun _ _ => trivial⟩
  unfold cancelRun
  apply Within.bind within_get
  intro w _
  split
  . exact .pure trivial
  . split
    . exact .throw trivial
    . have hfinish : Within (Sane G) (fun _ => True) (fun _ => True)
          (do
            modify World.setCancel
            finalizeCancel env) := by
        apply Within.bind (within_update (f := World.setCancel) fun _ => ⟨rfl, rfl⟩)
        intro _ _
        exact within_finalizeCancel hadmits'
      split
      . apply Within.bind (within_transition hadmits' rfl)
        intro _ _
        exact hfinish
      . exact hfinish

theorem within_resumeRun {userOverride : Option String} :
    Within (Sane G) (fun _ => True) (fun _ => True) (resumeRun env userOverride) := by
  have hadmits' : Admits G fun _ => True := ⟨hadmits.iteration, fun _ _ => trivial⟩
  have hresume : Within (fun s => G s.plot) (fun _ => True) (fun _ => True)
      (resumeMutation userOverride) := by
    intro s hs
    unfold resumeMutation
    simp only [wp_bind, wp_get, wp_requireTransition, wp_set]
    split
    . next hlegal =>
      have hplot : ({ s.withStatus .optimizing with pendingUserOverride := userOverride } :
          RunSnapshot).plot = s.plot := by
        simp only [RunSnapshot.plot, RunSnapshot.withStatus, RunStatus.isOver_of_canTransition hlegal]
        rfl
      rw [hplot]
      exact ⟨hs, trivial⟩
    . exact ⟨hs, trivial⟩
  unfold resumeRun
  apply Within.bind within_get
  intro w _
  split
  . apply Within.bind (P := fun _ => True)
    . unfold popPaused
      apply Within.bind within_get
      intro _ _
      split
      . exact .pure trivial
      . apply Within.bind within_monotonic
        intro now _
        exact within_update fun _ => ⟨rfl, rfl⟩
    . intro _ _
      apply Within.bind (within_commit hadmits' hresume)
      intro _ _
      apply Within.bind (within_update (f := World.setResume) fun _ => ⟨rfl, rfl⟩)
      intro _ _
      exact .pure trivial
  . exact .throw trivial

end Requests

end Manager

end Workflow

end AgenticPrd
