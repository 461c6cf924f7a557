import AgenticPrd.Backend.Workflow.ParallelReviews

/-!
A round of the reviewers in any order: the world it leaves comes from what each reviewer has done,
and from nothing else.
-/

namespace AgenticPrd

namespace Workflow

open RunManager Prog Transition Interleaving

variable {τ : Type} {env : WorkflowEnv} {measure : NodeTiming → τ} {role : ReviewRole}

section Points

-- What a reviewer has done when it stands at a point, in an iteration.
def deeds (measure : NodeTiming → τ) (iteration : Nat) (role : ReviewRole) :
    ReviewerPoint → List (Deed τ)
  | .node .ready => []
  | .node _ => [.entered]
  | .answered _ _ _ => [.entered]
  | .completed _ _ review => [.entered, .reviewed review]
  | .billed _ result review => [.entered, .reviewed review, .billed result.usage]
  | .recorded result review seconds =>
    [
      .entered,
      .reviewed review,
      .billed result.usage,
      .timed ((reviewTiming role iteration seconds result.usage).map measure)
    ]

-- The snapshot that the reviewer has read is one of the iteration.
def Framed (iteration : Nat) : ReviewerPoint → Prop
  | .node (.suspended frame _) => frame.state.currentIteration = iteration
  | .answered frame _ _ => frame.state.currentIteration = iteration
  | .completed frame _ _ => frame.state.currentIteration = iteration
  | .billed frame _ _ => frame.state.currentIteration = iteration
  | _ => True

def Deed.rank : Deed τ → Nat
  | entered => 0
  | reviewed _ => 1
  | billed _ => 2
  | timed _ => 3

theorem length_deeds {iteration : Nat} {point : ReviewerPoint} {before : List (Deed τ)}
    {deed : Deed τ} (h : deeds measure iteration role point = before ++ [deed]) :
    before.length = deed.rank := by
  have hsplit : ∀ (earlier : List (Deed τ)) last, deeds measure iteration role point
      = earlier ++ [last] → earlier.length = last.rank → before.length = deed.rank := by
    intro earlier last hpoint hrank
    rw [h] at hpoint
    obtain ⟨rfl, hlast⟩ := List.append_inj' hpoint rfl
    cases hlast
    exact hrank
  cases point with
  | node pc =>
    cases pc with
    | ready => simp [deeds] at h
    | _ => exact hsplit [] _ rfl rfl
  | answered frame result review => exact hsplit [] _ rfl rfl
  | completed frame result review => exact hsplit [.entered] _ rfl rfl
  | billed frame result review => exact hsplit [.entered, .reviewed review] _ rfl rfl
  | recorded result review seconds =>
    exact hsplit [.entered, .reviewed review, .billed result.usage] _ rfl rfl

-- What a move of a reviewer does: it waits on, or it does the next deed.
def Performs (execution : RunExecution) (measure : NodeTiming → τ) (role : ReviewRole)
    (point point' : ReviewerPoint) (w w' : World) : Prop :=
  Framed w.snapshot.currentIteration point'
    ∧
  (
    held w' = held w
      ∧ deeds measure w.snapshot.currentIteration role point'
        = deeds measure w.snapshot.currentIteration role point
      ∨
    ∃ deed, Did execution measure role deed w w'
      ∧ deeds measure w.snapshot.currentIteration role point'
        = deeds measure w.snapshot.currentIteration role point ++ [deed]
  )

variable {w : World} {program : Prog World Exn ReviewerPoint}

theorem Framed.of_did {execution : RunExecution} {deed : Deed τ} {w' : World}
    (h : Did execution measure role deed w w') :
    w'.snapshot.currentIteration = w.snapshot.currentIteration := by
  have heffect := congrArg (fun v => v.snapshot.currentIteration) h.effect
  unfold outlook act at heffect
  rw [change_iteration] at heffect
  exact heffect

theorem performs_enter :
    wp
      (do
        let pc ← reviewerNode env.toEnv role
        return .node pc) w
      (fun point' w' => Performs env.execution measure role (.node .ready) point' w w')
      fun _ _ => True := by
  unfold reviewerNode
  rw [wp_bind, wp_bind]
  apply wp_mono ((keeping_checkCancel : Keeping held _) w)
  . intro _ w1 h1
    rw [wp_bind, wp_monotonic, wp_bind]
    apply wp_mono wp_markNode_did
    . intro _ w2 h2
      replace h2 : Did env.execution measure role .entered w w2 := h2.congr_left h1
      rw [wp_bind, wp_get, wp_bind]
      apply wp_mono ((keeping_structuredCall (overlooks_held _) : Keeping held _) w2)
      . intro structured w3 h3
        rw [wp_pure, wp_pure]
        refine ⟨Framed.of_did h2, ?_⟩
        right
        exact ⟨.entered, h2.congr_right h3, rfl⟩
      . intro _ _ _
        trivial
    . intro _ _ _
      trivial
  . intro _ _ _
    trivial

theorem performs_wake {frame : NodeFrame} {structured : StructuredPc}
    {answer : Answer ProviderStructuredResult}
    (hframed : frame.state.currentIteration = w.snapshot.currentIteration) :
    wp
      (do
        let outcome ← structuredWake env.toEnv env.roleReview (reviewCall frame.state role)
          (reviewRepair frame.state role) answer structured
        match outcome with
        | .inl structured => return .node (.suspended frame structured)
        | .inr (result, review) => return .answered frame result review) w
      (fun point' w' =>
        Performs env.execution measure role (.node (.suspended frame structured)) point' w w')
      fun _ _ => True := by
  rw [wp_bind]
  apply wp_mono ((keeping_structuredWake (overlooks_held _) fun _ => overlooks_held _ :
    Keeping held _) w)
  . intro outcome w1 h1
    split
    . exact ⟨hframed, .inl ⟨h1, rfl⟩⟩
    . exact ⟨hframed, .inl ⟨h1, rfl⟩⟩
  . intro _ _ _
    trivial

theorem performs_move {point : ReviewerPoint} {move : ReviewerMove}
    (hframed : Framed w.snapshot.currentIteration point)
    (hprogram : moveProgram env role point move = some program) :
    wp program w (fun point' w' => Performs env.execution measure role point point' w w')
      fun _ _ => True := by
  unfold moveProgram at hprogram
  split at hprogram
  . cases hprogram
    exact performs_enter
  . cases hprogram
    exact performs_wake hframed
  . cases hprogram
    rw [wp_bind]
    apply wp_mono wp_completeReview_did
    . rintro _ w' ⟨_, hdid⟩
      exact ⟨hframed, .inr ⟨_, hdid, rfl⟩⟩
    . intro _ _ _
      trivial
  . cases hprogram
    rw [wp_bind]
    apply wp_mono wp_recordUsage_did
    . intro _ w' hdid
      exact ⟨hframed, .inr ⟨_, hdid, rfl⟩⟩
    . intro _ _ _
      trivial
  . cases hprogram
    rw [wp_bind]
    apply wp_mono wp_timeReview_did
    . intro seconds w' hdid
      refine ⟨trivial, .inr ⟨_, hdid, ?_⟩⟩
      dsimp only [Framed] at hframed
      rw [hframed]
      rfl
    . intro _ _ _
      trivial
  . contradiction

theorem roundStep_performs {round round' : ReviewRound} {label : ReviewRole × ReviewerMove}
    (hframed : Framed round.world.snapshot.currentIteration (round.points label.1))
    (hstep : roundStep env round label = some round') :
    ∃ point, round'.points = Function.update round.points label.1 point
      ∧ Performs env.execution measure label.1 (round.points label.1) point round.world
        round'.world := by
  unfold roundStep at hstep
  simp only [Option.bind_eq_bind, Option.bind_eq_some_iff] at hstep
  obtain ⟨program, hprogram, hstep⟩ := hstep
  have hperforms : wp program round.world
      (fun point w' => Performs env.execution measure label.1 (round.points label.1) point
        round.world w') fun _ _ => True :=
    performs_move hframed hprogram
  split at hstep
  . unfold wp at hperforms
    split at hstep
    . next heq =>
      rw [heq] at hperforms
      cases hstep
      exact ⟨_, rfl, hperforms⟩
    . contradiction
  . contradiction

end Points

section Round

-- The events that the deeds bring, numbered from `sequence` on.
inductive Voices (runId : RunId) (iteration sequence : Nat) :
    List (ReviewRole × Deed τ) → List RunEvent → Prop where
  | nil : Voices runId iteration sequence [] []
  | tell {done : List (ReviewRole × Deed τ)} {told : List RunEvent} {role : ReviewRole}
    {deed : Deed τ} {e : RunEvent} (h : Voices runId iteration sequence done told)
    (hrun : e.runId = runId) (hsequence : e.sequence = sequence + told.length + 1)
    (htells : Tells role iteration e deed) :
    Voices runId iteration sequence (done ++ [(role, deed)]) (told ++ [e])
  | keep {done : List (ReviewRole × Deed τ)} {told : List RunEvent} {role : ReviewRole}
    {entry : Option τ} (h : Voices runId iteration sequence done told) :
    Voices runId iteration sequence (done ++ [(role, .timed entry)]) told

theorem Voices.runId_eq {runId : RunId} {iteration sequence : Nat}
    {done : List (ReviewRole × Deed τ)} {told : List RunEvent}
    (h : Voices runId iteration sequence done told) :
    ∀ e ∈ told, e.runId = runId := by
  induction h with
  | nil => simp
  | tell _ hrun _ _ ih =>
    intro e he
    rw [List.mem_append, List.mem_singleton] at he
    rcases he with he | rfl
    . exact ih e he
    . exact hrun
  | keep _ ih => exact ih

-- No reviewer has started yet, or the active node is one that has started and not completed.
def Attended (measure : NodeTiming → τ) (iteration : Nat) (round : ReviewRound) : Prop :=
  (∀ role, deeds measure iteration role (round.points role) = [])
    ∨
  (
    round.world.snapshot.latestEventSequence = round.world.eventStore.sequence
      ∧
    ∀ node ∈ round.world.snapshot.activeNode,
      ∃ role, node = ReviewRole.node role
        ∧ (deeds measure iteration role (round.points role)).length = 1
  )

/--
The round has come from `w0` by the deeds in `done`, and has told the events in `told`.
-/
structure Unfolds (execution : RunExecution) (measure : NodeTiming → τ) (w0 : World)
    (done : List (ReviewRole × Deed τ)) (told : List RunEvent) (round : ReviewRound) : Prop where
  threads :
    ∀ role, thread role done
      = (deeds measure w0.snapshot.currentIteration role (round.points role)).map fun deed =>
        (role, deed)
  effect : outlook measure round.world = run (act execution) (outlook measure w0) done
  journal : ∃ later, round.world.journal = w0.journal ++ later ∧ later.filterMap Commit.event = told
  voices : Voices w0.snapshot.runId w0.snapshot.currentIteration w0.eventStore.sequence done told
  sequence : round.world.eventStore.sequence = w0.eventStore.sequence + told.length
  iteration : round.world.snapshot.currentIteration = w0.snapshot.currentIteration
  runId : round.world.snapshot.runId = w0.snapshot.runId
  framed : ∀ role, Framed w0.snapshot.currentIteration (round.points role)
  attended : Attended measure w0.snapshot.currentIteration round

variable {execution : RunExecution} {w0 : World} {done : List (ReviewRole × Deed τ)}
  {told : List RunEvent} {round round' : ReviewRound}

theorem Unfolds.start (w0 : World) : Unfolds execution measure w0 [] [] (startRound w0) :=
  {
    threads := fun _ => rfl
    effect := rfl
    journal := ⟨[], (List.append_nil _).symm, rfl⟩
    voices := .nil
    sequence := rfl
    iteration := rfl
    runId := rfl
    framed := fun _ => trivial
    attended := .inl fun _ => rfl
  }

theorem Unfolds.wait {point : ReviewerPoint} {w' : World}
    (h : Unfolds execution measure w0 done told round) (hheld : held w' = held round.world)
    (hframed : Framed w0.snapshot.currentIteration point)
    (hdeeds : deeds measure w0.snapshot.currentIteration role point
      = deeds measure w0.snapshot.currentIteration role (round.points role)) :
    Unfolds execution measure w0 done told
      { world := w', points := Function.update round.points role point } := by
  have hpoints : ∀ role', deeds measure w0.snapshot.currentIteration role'
        (Function.update round.points role point role')
      = deeds measure w0.snapshot.currentIteration role' (round.points role') := by
    intro role'
    by_cases heq : role' = role
    . subst heq
      rw [Function.update_self, hdeeds]
    . rw [Function.update_of_ne heq]
  have houtlook : outlook measure w' = outlook measure round.world := outlook_congr hheld
  unfold held at hheld
  simp only [Prod.mk.injEq] at hheld
  obtain ⟨hsnapshot, hsequence, hjournal⟩ := hheld
  exact {
    threads := by
      intro role'
      rw [hpoints]
      exact h.threads role'
    effect := houtlook.trans h.effect
    journal := by
      rw [hjournal]
      exact h.journal
    voices := h.voices
    sequence := hsequence.trans h.sequence
    iteration := by
      rw [hsnapshot]
      exact h.iteration
    runId := by
      rw [hsnapshot]
      exact h.runId
    framed := by
      intro role'
      by_cases heq : role' = role
      . subst heq
        dsimp only
        rw [Function.update_self]
        exact hframed
      . dsimp only
        rw [Function.update_of_ne heq]
        exact h.framed role'
    attended := by
      unfold Attended
      simp only [hpoints, hsnapshot, hsequence]
      exact h.attended
  }

theorem Attended.did {point : ReviewerPoint} {deed : Deed τ} {w' : World} {iteration : Nat}
    (h : Attended measure iteration round) (hdid : Did execution measure role deed round.world w')
    (hdeeds : deeds measure iteration role point
      = deeds measure iteration role (round.points role) ++ [deed]) :
    Attended measure iteration
      { world := w', points := Function.update round.points role point } := by
  have hbefore : (deeds measure iteration role (round.points role)).length = deed.rank :=
    length_deeds hdeeds
  have hself : (deeds measure iteration role (Function.update round.points role point role)).length
      = deed.rank + 1 := by
    rw [Function.update_self, hdeeds, List.length_append, hbefore]
    rfl
  have hlatest : deed.rank ≠ 0 →
      round.world.snapshot.latestEventSequence = round.world.eventStore.sequence := by
    intro hrank
    cases h with
    | inl hready =>
      rw [hready role] at hbefore
      exact absurd hbefore.symm hrank
    | inr hattended => exact hattended.1
  -- A role that is still at its review, and is not the one that has gone on.
  have hother : ∀ node ∈ round.world.snapshot.activeNode, deed.rank ≠ 0 →
      (deed.rank = 1 → node ≠ role.node) →
      ∃ role', node = ReviewRole.node role' ∧
        (deeds measure iteration role' (Function.update round.points role point role')).length
          = 1 := by
    intro node hnode hrank hne
    cases h with
    | inl hready =>
      rw [hready role] at hbefore
      exact absurd hbefore.symm hrank
    | inr hattended =>
      obtain ⟨role', hrole', hlength⟩ := hattended.2 node hnode
      refine ⟨role', hrole', ?_⟩
      have hrole : role' ≠ role := by
        rintro rfl
        rw [hbefore] at hlength
        exact hne hlength hrole'
      rw [Function.update_of_ne hrole]
      exact hlength
  right
  constructor
  . cases hdid.latest with
    | inl hnew => exact hnew
    | inr hkept =>
      obtain ⟨⟨entry, rfl⟩, hsame, hsequence⟩ := hkept
      dsimp only
      rw [hsame, hsequence]
      exact hlatest (by simp [Deed.rank])
  . dsimp only
    rw [hdid.active]
    intro node hnode
    cases deed with
    | entered =>
      cases hnode
      exact ⟨role, rfl, hself⟩
    | reviewed review =>
      dsimp only [Deed.active] at hnode
      split at hnode
      . contradiction
      . next hactive =>
        apply hother node hnode
        . simp [Deed.rank]
        . intro _ heq
          rw [← heq] at hactive
          exact hactive hnode
    | billed usage => exact hother node hnode (by simp [Deed.rank]) (by simp [Deed.rank])
    | timed entry => exact hother node hnode (by simp [Deed.rank]) (by simp [Deed.rank])

theorem Unfolds.did {point : ReviewerPoint} {deed : Deed τ} {w' : World}
    (h : Unfolds execution measure w0 done told round)
    (hdid : Did execution measure role deed round.world w')
    (hframed : Framed w0.snapshot.currentIteration point)
    (hdeeds : deeds measure w0.snapshot.currentIteration role point
      = deeds measure w0.snapshot.currentIteration role (round.points role) ++ [deed]) :
    ∃ told', Unfolds execution measure w0 (done ++ [(role, deed)]) told'
      { world := w', points := Function.update round.points role point } := by
  obtain ⟨later, hlater, htold⟩ := h.journal
  obtain ⟨event, hevent, hvoiced⟩ := hdid.journal
  have hthreads : ∀ role', thread role' (done ++ [(role, deed)])
      = (deeds measure w0.snapshot.currentIteration role'
          (Function.update round.points role point role')).map fun deed => (role', deed) := by
    intro role'
    rw [thread_append, h.threads]
    by_cases heq : role' = role
    . subst heq
      rw [Function.update_self, hdeeds, List.map_append]
      simp [thread]
    . rw [Function.update_of_ne heq]
      simp [thread, Ne.symm heq]
  have heffect : outlook measure w' = run (act execution) (outlook measure w0)
      (done ++ [(role, deed)]) := by
    rw [run_append, ← h.effect]
    exact hdid.effect
  have hiteration := (Framed.of_did hdid).trans h.iteration
  have hrunId : w'.snapshot.runId = w0.snapshot.runId := by
    have heffect' := congrArg (fun v => v.snapshot.runId) hdid.effect
    unfold outlook act at heffect'
    rw [change_runId] at heffect'
    exact heffect'.trans h.runId
  have hsequence : w'.eventStore.sequence = round.world.eventStore.sequence + deed.events :=
    congrArg Outlook.sequence hdid.effect
  have hframes : ∀ role', Framed w0.snapshot.currentIteration
      (Function.update round.points role point role') := by
    intro role'
    by_cases heq : role' = role
    . subst heq
      rw [Function.update_self]
      exact hframed
    . rw [Function.update_of_ne heq]
      exact h.framed role'
  have hjournal : w'.journal = w0.journal ++ (later ++ [{ snapshot := w'.snapshot, event }]) := by
    rw [hevent, hlater, List.append_assoc]
  cases event with
  | none =>
    obtain ⟨entry, rfl⟩ := hvoiced
    exact ⟨told, {
      threads := hthreads
      effect := heffect
      journal := ⟨_, hjournal, by simp [htold]⟩
      voices := h.voices.keep
      sequence := hsequence.trans h.sequence
      iteration := hiteration
      runId := hrunId
      framed := hframes
      attended := h.attended.did hdid hdeeds
    }⟩
  | some e =>
    obtain ⟨hrun, hnumber, htells⟩ := hvoiced
    have hevents : deed.events = 1 := by
      cases deed with
      | timed entry => exact htells.elim
      | _ => rfl
    rw [h.sequence] at hnumber
    rw [h.iteration] at htells
    exact ⟨told ++ [e], {
      threads := hthreads
      effect := heffect
      journal := ⟨_, hjournal, by simp [htold]⟩
      voices := h.voices.tell (hrun.trans h.runId) hnumber htells
      sequence := by
        rw [hsequence, h.sequence, hevents, List.length_append]
        rfl
      iteration := hiteration
      runId := hrunId
      framed := hframes
      attended := h.attended.did hdid hdeeds
    }⟩

theorem Unfolds.step {label : ReviewRole × ReviewerMove}
    (h : Unfolds env.execution measure w0 done told round)
    (hstep : roundStep env round label = some round') :
    ∃ done' told', Unfolds env.execution measure w0 done' told' round' := by
  have hframed : Framed round.world.snapshot.currentIteration (round.points label.1) := by
    rw [h.iteration]
    exact h.framed label.1
  have hmove : ∃ point, round'.points = Function.update round.points label.1 point
      ∧ Performs env.execution measure label.1 (round.points label.1) point round.world
        round'.world :=
    roundStep_performs hframed hstep
  obtain ⟨point, hpoints, hpoint, hperforms⟩ := hmove
  rw [h.iteration] at hpoint hperforms
  obtain ⟨w', points'⟩ := round'
  dsimp only at hpoints hperforms
  subst hpoints
  rcases hperforms with ⟨hheld, hdeeds⟩ | ⟨deed, hdid, hdeeds⟩
  . exact ⟨done, told, h.wait hheld hpoint hdeeds⟩
  . obtain ⟨told', h'⟩ := h.did hdid hpoint hdeeds
    exact ⟨_, told', h'⟩

theorem Unfolds.of_steps (hrun : Reaches (roundStep env) (startRound w0) round) :
    ∃ done told, Unfolds env.execution measure w0 done told round := by
  apply hrun.invariant (I := fun round => ∃ done told,
    Unfolds env.execution measure w0 done told round) ⟨[], [], .start w0⟩
  rintro round1 label round2 ⟨done, told, h⟩ _ hstep
  exact h.step hstep

-- The events of a round that has started in `w0`.
def roundEvents (w0 : World) (round : ReviewRound) : List RunEvent :=
  (round.world.journal.drop w0.journal.length).filterMap Commit.event

theorem Unfolds.roundEvents_eq (h : Unfolds execution measure w0 done told round) :
    roundEvents w0 round = told := by
  obtain ⟨later, hlater, htold⟩ := h.journal
  unfold roundEvents
  rw [hlater, List.drop_left]
  exact htold

end Round

section Finished

-- What a reviewer has found, with the usage that it has been billed.
def reviewed? : ReviewerPoint → Option (TokenUsage × RoleReview)
  | .recorded result review _ => some (result.usage, review)
  | _ => none

def Finished (results : ReviewRole → TokenUsage × RoleReview) (round : ReviewRound) : Prop :=
  ∀ role, reviewed? (round.points role) = some (results role)

def seconds? : ReviewerPoint → Option ℚ
  | .recorded _ _ seconds => some seconds
  | _ => none

-- A timing without the time.
def unmeasured (timing : NodeTiming) : NodeTiming :=
  {
    timing with
    seconds := 0
    seconds_nonneg := le_refl 0
  }

-- A snapshot without the times and the timings.
def untimed (snapshot : RunSnapshot) : RunSnapshot :=
  {
    snapshot with
    nodeTimings := []
    elapsedSeconds := 0
    updatedAt := 0
  }

theorem reviewTiming_unmeasured {iteration : Nat} {seconds seconds' : ℚ} {usage : TokenUsage} :
    (reviewTiming role iteration seconds usage).map unmeasured
      =
    (reviewTiming role iteration seconds' usage).map unmeasured := by
  have hround : ∀ seconds : ℚ, 0 ≤ Rounding.round (max 0 seconds) 2 := by
    intro seconds
    have h : ((0 : ℤ) : ℚ) ≤ max 0 seconds := by simp
    exact_mod_cast Rounding.le_round 2 h
  unfold reviewTiming NodeTiming.validate?
  by_cases hversion : 1 ≤ iteration ∧ iteration ≤ 5
  . rw [dif_pos ⟨hversion, le_refl 1, hround seconds⟩,
      dif_pos ⟨hversion, le_refl 1, hround seconds'⟩]
    rfl
  . rw [dif_neg fun h => hversion h.1, dif_neg fun h => hversion h.1]

variable {execution : RunExecution} {w0 : World} {done done' : List (ReviewRole × Deed τ)}
  {told told' : List RunEvent} {round round' : ReviewRound}
  {results : ReviewRole → TokenUsage × RoleReview}

theorem Finished.recorded (h : Finished results round) (role : ReviewRole) :
    ∃ result seconds,
      round.points role = .recorded result (results role).2 seconds
        ∧ result.usage = (results role).1 := by
  have hrole := h role
  unfold reviewed? at hrole
  split at hrole
  . next result review seconds hpoint =>
    rw [← Option.some.inj hrole]
    exact ⟨result, seconds, hpoint, rfl⟩
  . contradiction

theorem Finished.unmeasured_deeds (h : Finished results round) (h' : Finished results round')
    {iteration : Nat} :
    deeds unmeasured iteration role (round.points role)
      =
    deeds unmeasured iteration role (round'.points role) := by
  obtain ⟨result, seconds, hpoint, husage⟩ := h.recorded role
  obtain ⟨result', seconds', hpoint', husage'⟩ := h'.recorded role
  rw [hpoint, hpoint']
  unfold deeds
  dsimp only
  rw [husage, husage', reviewTiming_unmeasured]

theorem Finished.deeds_eq (h : Finished results round) (h' : Finished results round')
    (hseconds : seconds? (round.points role) = seconds? (round'.points role)) {iteration : Nat} :
    deeds measure iteration role (round.points role)
      =
    deeds measure iteration role (round'.points role) := by
  obtain ⟨result, seconds, hpoint, husage⟩ := h.recorded role
  obtain ⟨result', seconds', hpoint', husage'⟩ := h'.recorded role
  rw [hpoint, hpoint'] at hseconds ⊢
  cases hseconds
  unfold deeds
  dsimp only
  rw [husage, husage']

theorem Unfolds.outlook_eq (h : Unfolds execution measure w0 done told round)
    (h' : Unfolds execution measure w0 done' told' round')
    (hdeeds : ∀ role, deeds measure w0.snapshot.currentIteration role (round.points role)
      = deeds measure w0.snapshot.currentIteration role (round'.points role)) :
    outlook measure round.world = outlook measure round'.world := by
  rw [h.effect, h'.effect]
  apply (act_independent execution).run_eq
  intro role
  rw [h.threads, h'.threads, hdeeds]

-- A finished round leaves no reviewer active, and has written the last sequence of its events.
theorem Unfolds.finished (h : Unfolds execution measure w0 done told round)
    (hfinished : Finished results round) :
    round.world.snapshot.activeNode = none
      ∧ round.world.snapshot.latestEventSequence = round.world.eventStore.sequence := by
  have hlength : ∀ role,
      (deeds measure w0.snapshot.currentIteration role (round.points role)).length = 4 := by
    intro role
    obtain ⟨result, seconds, hpoint, _⟩ := hfinished.recorded role
    rw [hpoint]
    rfl
  cases h.attended with
  | inl hready =>
    have htech := hlength .tech
    rw [hready] at htech
    contradiction
  | inr hattended =>
    refine ⟨?_, hattended.1⟩
    rw [Option.eq_none_iff_forall_ne_some]
    intro node hnode
    obtain ⟨role, _, hone⟩ := hattended.2 node hnode
    rw [hlength] at hone
    contradiction

theorem untimed_of_bare (snapshot : RunSnapshot) :
    untimed snapshot = {
      bare snapshot with
      activeNode := snapshot.activeNode
      latestEventSequence := snapshot.latestEventSequence
    } :=
  rfl

theorem Unfolds.untimed_eq (h : Unfolds execution measure w0 done told round)
    (h' : Unfolds execution measure w0 done' told' round') (hfinished : Finished results round)
    (hfinished' : Finished results round')
    (hdeeds : ∀ role, deeds measure w0.snapshot.currentIteration role (round.points role)
      = deeds measure w0.snapshot.currentIteration role (round'.points role)) :
    untimed round.world.snapshot = untimed round'.world.snapshot
      ∧ round.world.eventStore.sequence = round'.world.eventStore.sequence := by
  have houtlook := h.outlook_eq h' hdeeds
  have hbare : bare round.world.snapshot = bare round'.world.snapshot :=
    congrArg Outlook.snapshot houtlook
  have hsequence : round.world.eventStore.sequence = round'.world.eventStore.sequence :=
    congrArg Outlook.sequence houtlook
  obtain ⟨hactive, hlatest⟩ := h.finished hfinished
  obtain ⟨hactive', hlatest'⟩ := h'.finished hfinished'
  refine ⟨?_, hsequence⟩
  rw [untimed_of_bare, untimed_of_bare, hbare, hactive, hactive', hlatest, hlatest', hsequence]

end Finished

section Judgement

variable {env : Env} {faults : Faults} {w : World}

-- The evaluation that the aggregator builds of the reviews.
def judged? (snapshot : RunSnapshot) : Option EvaluationResult :=
  match snapshot.reviews .tech, snapshot.reviews .ux, snapshot.reviews .biz with
  | some tech, some ux, some biz =>
    EvaluationResult.validate? tech ux biz (averageScore tech ux biz)
      (tech.feedback ++ ux.feedback ++ biz.feedback)
  | _, _, _ => none

def gatePassed (qualityThreshold : ℚ) (evaluation : EvaluationResult) : Bool :=
  decide (qualityThreshold ≤ evaluation.overallScore) && evaluation.severityCount .mustFix == 0

/--
The aggregator has judged by `evaluation`, and the run is COMPLETED exactly where the gate lets it.
-/
def Judges (qualityThreshold : ℚ) (evaluation : EvaluationResult) (w' : World) : Prop :=
  w'.snapshot.latestEvaluation = some evaluation
    ∧
  (w'.snapshot.status = .completed ↔ gatePassed qualityThreshold evaluation = true)

theorem stampless_status : Stampless RunSnapshot.status :=
  {
    updatedAt := fun _ _ => rfl
    elapsed := fun _ _ => rfl
    sequence := fun _ _ => rfl
  }

theorem statusless_latestEvaluation : Statusless RunSnapshot.latestEvaluation :=
  {
    updatedAt := fun _ _ => rfl
    elapsed := fun _ _ => rfl
    sequence := fun _ _ => rfl
    status := fun _ _ => rfl
    ended := fun _ _ => rfl
  }

theorem wp_transition_status {target : RunStatus} {event : RunEventType} {payload : Payload} :
    wp (transition env faults target event payload) w (fun _ w' => w'.snapshot.status = target)
      fun _ _ => True := by
  rw [wp_transition]
  split
  . have hmoved : withCalls RunSnapshot.status (stamped env (moved env target w))
        = (target, (moved env target w).calls) := by
      rw [withCalls_stamped stampless_status]
      unfold withCalls
      rw [(moved_frame env target w).2.2.2]
    apply wp_mono (wp_publish_withCalls stampless_status)
    . intro envelope w' hover
      rw [hmoved] at hover
      exact congrArg Prod.fst hover
    . intro _ _ _
      trivial
  . trivial

-- A transition after the evaluation has been stored.
theorem wp_transition_judges {target : RunStatus} {event : RunEventType} {payload : Payload}
    {qualityThreshold : ℚ} {evaluation : EvaluationResult}
    (hlatest : w.snapshot.latestEvaluation = some evaluation)
    (hgate : target = .completed ↔ gatePassed qualityThreshold evaluation = true) :
    wp (transition env faults target event payload) w
      (fun _ => Judges qualityThreshold evaluation) fun _ _ => True := by
  apply wp_mono (wp_and wp_transition_status (keeping_transition_withCalls statusless_latestEvaluation w))
  . rintro _ w' ⟨hstatus, hover⟩
    refine ⟨?_, ?_⟩
    . rw [← hlatest]
      exact congrArg Prod.fst hover
    . rw [hstatus]
      exact hgate
  . intro _ _ _
    trivial

theorem wp_setStage_judges {qualityThreshold : ℚ} {evaluation : EvaluationResult}
    (hlatest : w.snapshot.latestEvaluation = some evaluation)
    (hgate : gatePassed qualityThreshold evaluation ≠ true) :
    wp (setStage env .optimizing) w (fun _ => Judges qualityThreshold evaluation)
      fun _ _ => True := by
  have hkept : w.snapshot.status ≠ .completed → Judges qualityThreshold evaluation w := by
    intro hstatus
    exact ⟨hlatest, iff_of_false hstatus hgate⟩
  unfold setStage
  rw [wp_bind, wp_get]
  split
  . next hrequested =>
    apply hkept
    rcases hrequested with heq | heq <;> simp [heq]
  . split
    . next heq =>
      apply hkept
      simp [heq]
    . exact wp_transition_judges hlatest (iff_of_false (by simp) hgate)

theorem wp_commitEvaluation_judges {state : RunSnapshot} {evaluation : EvaluationResult} :
    wp (commitEvaluation env state evaluation) w
      (fun _ => Judges state.qualityThreshold evaluation) fun _ _ => True := by
  unfold commitEvaluation
  dsimp only
  rw [wp_bind]
  apply wp_mono
  . apply wp_commit_part statusless_latestEvaluation.toStampless
      (P := fun latest => latest = some evaluation)
    rfl
  . intro scored w1 hlatest
    rw [wp_ite]
    split
    . next hgate =>
      rw [wp_bind]
      apply wp_transition_judges hlatest
      exact iff_of_true rfl hgate
    . next hgate =>
      rw [wp_ite]
      split
      . rw [wp_bind]
        apply wp_transition_judges hlatest
        exact iff_of_false (by simp) hgate
      . rw [wp_ite]
        split
        . unfold enterPaused
          rw [wp_bind, wp_bind, wp_get, wp_bind]
          apply wp_mono (wp_transition_judges hlatest (iff_of_false (by simp) hgate))
          . intro _ w2 h2
            exact h2
          . intro _ _ _
            trivial
        . rw [wp_bind]
          exact wp_setStage_judges hlatest hgate
  . intro _ _ _
    trivial

-- What the aggregator reads.
def assessed (snapshot : RunSnapshot) : (ReviewRole → Option RoleReview) × ℚ :=
  (snapshot.reviews, snapshot.qualityThreshold)

theorem statusless_assessed : Statusless assessed :=
  {
    updatedAt := fun _ _ => rfl
    elapsed := fun _ _ => rfl
    sequence := fun _ _ => rfl
    status := fun _ _ => rfl
    ended := fun _ _ => rfl
  }

theorem keeping_setStage_withCalls {υ : Type} {part : RunSnapshot → υ} (hpart : Statusless part)
    {target : RunStatus} : Keeping (withCalls part) (setStage env target) := by
  unfold setStage
  apply Keeping.bind .get
  intro w
  split
  . exact .pure _
  . split
    . exact .pure _
    . exact keeping_transition_withCalls hpart

instance {υ : Type} {part : RunSnapshot → υ} : Still (withCalls part) :=
  {
    congr := by
      intro w w' hsnapshot hcalls _
      unfold withCalls
      rw [hsnapshot, hcalls]
  }

theorem wp_aggregatorNode_judges :
    wp (aggregatorNode env) w
      (fun _ w' => ∃ evaluation ∈ judged? w.snapshot,
        Judges w.snapshot.qualityThreshold evaluation w')
      fun _ _ => True := by
  have hmark : Keeping (withCalls assessed) (markNode env .aggregator .running none) :=
    keeping_commit_withCalls statusless_assessed.toStampless (.modify fun _ => rfl)
  unfold aggregatorNode
  rw [wp_bind]
  apply wp_mono ((keeping_checkCancel : Keeping (withCalls assessed) _) w)
  . intro _ w1 h1
    rw [wp_bind]
    apply wp_mono (keeping_setStage_withCalls statusless_assessed w1)
    . intro _ w2 h2
      rw [wp_bind]
      apply wp_mono (hmark w2)
      . intro _ w3 h3
        have hassessed : assessed w3.snapshot = assessed w.snapshot :=
          congrArg Prod.fst (h3.trans (h2.trans h1))
        have hreviews : w3.snapshot.reviews = w.snapshot.reviews := congrArg Prod.fst hassessed
        have hthreshold : w3.snapshot.qualityThreshold = w.snapshot.qualityThreshold :=
          congrArg Prod.snd hassessed
        rw [wp_bind, wp_get]
        dsimp only
        unfold judged?
        rw [← hreviews, ← hthreshold]
        split
        . split
          . trivial
          . next evaluation hevaluation =>
            apply wp_mono wp_commitEvaluation_judges
            . intro _ w4 h4
              refine ⟨evaluation, ?_, h4⟩
              simp_all
            . intro _ _ _
              trivial
        . trivial
      . intro _ _ _
        trivial
    . intro _ _ _
      trivial
  . intro _ _ _
    trivial

end Judgement

end Workflow

end AgenticPrd
