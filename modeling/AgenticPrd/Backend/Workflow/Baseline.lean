import AgenticPrd.Backend.RunManager.Ranking
import AgenticPrd.Backend.Workflow.Attempt
import AgenticPrd.Backend.Workflow.Flow
import AgenticPrd.Backend.Workflow.Safety

/-!
What a generation is given to start from. Every streaming call passes on the document of the best
version among those that the run has evaluated before it.
-/

namespace AgenticPrd

-- The iteration and the baseline of a streaming call.
def ProviderCall.streamed? : ProviderCall → Option (Nat × Option String)
  | streamPrd _ _ _ iteration _ baseline _ => some (iteration, baseline)
  | _ => none

def World.streamed (w : World) : List (Nat × Option String) :=
  w.calls.filterMap ProviderCall.streamed?

-- What of a snapshot a streaming call depends on.
structure Basis where
  versions : List PRDVersion
  bestVersion : Option Nat
  currentIteration : Nat

def RunSnapshot.basis (snapshot : RunSnapshot) : Basis :=
  {
    versions := snapshot.versions
    bestVersion := snapshot.bestVersion
    currentIteration := snapshot.currentIteration
  }

def World.grounds (w : World) : Basis × List (Nat × Option String) :=
  (w.snapshot.basis, w.streamed)

namespace Workflow

open RunManager Prog Leader

variable {env : Env} {faults : Faults} {w w' w1 : World} {state s s' : RunSnapshot}
  {plan : Option RevisionPlan} {attempt : Nat}

section Views

theorem apart_basis : Apart RunSnapshot.basis :=
  {
    updatedAt := fun _ _ => rfl
    elapsed := fun _ _ => rfl
    sequence := fun _ _ => rfl
    status := fun _ _ => rfl
    ended := fun _ _ => rfl
    started := fun _ _ => rfl
    marked := fun _ _ _ => rfl
    failed := fun _ _ _ _ _ => rfl
    begun := fun _ _ => rfl
    streamed := fun _ _ => rfl
    reviewed := fun _ _ _ _ => rfl
    timed := fun _ _ => rfl
    used := fun _ _ _ _ => rfl
  }

theorem Keeping.grounds {α : Type} {x : Prog World Exn α} (h : Keeping (withCalls RunSnapshot.basis) x) :
    Keeping World.grounds x :=
  h.comp fun both => (both.1, both.2.filterMap ProviderCall.streamed?)

instance : Unstreamed World.grounds :=
  have hbasis := apart_basis.toAside.unstreamed
  {
    congr := fun hsnapshot hcalls hjournal =>
      congrArg (fun both => (both.1, both.2.filterMap ProviderCall.streamed?))
        (hbasis.congr hsnapshot hcalls hjournal)
    keeps_commit := fun hminor => Keeping.grounds (hbasis.keeps_commit hminor)
    keeps_transition := fun htransit => Keeping.grounds (hbasis.keeps_transition htransit)
    keeps_streaming := fun hstreaming => Keeping.grounds (hbasis.keeps_streaming hstreaming)
  }

instance : Unbilled World.grounds :=
  {
    (inferInstance : Unstreamed World.grounds).toUnmoved with
    keeps_billing := fun hbilling => Keeping.grounds (apart_basis.unbilled.keeps_billing hbilling)
  }

theorem keeping_commit_streamed {mutation : Prog RunSnapshot Exn Unit} {event : Option RunEventType}
    {payload : RunSnapshot → Payload} :
    Keeping World.streamed (commit env faults mutation event payload) :=
  keeping_commit_calls _

instance : Unbilled World.streamed :=
  unbilled_calls (List.filterMap ProviderCall.streamed?)

theorem overlooks_grounds {call : ProviderCall} (hcall : call.streamed? = none) :
    Overlooks World.grounds call := by
  intro w
  unfold World.grounds World.streamed World.called
  simp [hcall]

theorem overlooks_streamed {call : ProviderCall} (hcall : call.streamed? = none) :
    Overlooks World.streamed call := by
  intro w
  exact congrArg Prod.snd (overlooks_grounds hcall w)

end Views

-- What a streaming call from the snapshot passes on.
def asks (s : RunSnapshot) : Nat × Option String :=
  (s.currentIteration, baselinePrd s)

theorem asks_eq (h : s.basis = s'.basis) : asks s = asks s' := by
  have hversions : s.versions = s'.versions := congrArg Basis.versions h
  have hbest : s.bestVersion = s'.bestVersion := congrArg Basis.bestVersion h
  have hiteration : s.currentIteration = s'.currentIteration := congrArg Basis.currentIteration h
  unfold asks baselinePrd
  rw [hversions, hbest, hiteration]

-- Some streaming calls have been made from the snapshot of `w`.
def Asked (w w' : World) : Prop :=
  ∃ n, w'.streamed = w.streamed ++ List.replicate n (asks w.snapshot)

structure Grounded (w w' : World) : Prop where
  basis : w'.snapshot.basis = w.snapshot.basis
  asked : Asked w w'

theorem Asked.of_streamed (h : w'.streamed = w.streamed) : Asked w w' :=
  ⟨0, by simpa using h⟩

theorem Grounded.refl (w : World) : Grounded w w :=
  ⟨rfl, .of_streamed rfl⟩

theorem Grounded.asked_trans (h : Grounded w w1) (h' : Asked w1 w') : Asked w w' := by
  obtain ⟨n, hn⟩ := h.asked
  obtain ⟨m, hm⟩ := h'
  refine ⟨n + m, ?_⟩
  rw [hm, hn, asks_eq h.basis, List.append_assoc, List.replicate_append_replicate]

theorem Grounded.trans (h : Grounded w w1) (h' : Grounded w1 w') : Grounded w w' :=
  ⟨h'.basis.trans h.basis, h.asked_trans h'.asked⟩

theorem Grounded.of_grounds (h : w'.grounds = w.grounds) : Grounded w w' :=
  ⟨congrArg Prod.fst h, .of_streamed (congrArg Prod.snd h)⟩

theorem Grounded.keep (h : Grounded w w1) (h' : w'.grounds = w1.grounds) : Grounded w w' :=
  h.trans (.of_grounds h')

-- The node may have gone on with streams from the snapshot of `w`, and what it then waits for too.
structure Draws (w : World) (pc : Pc) (w' : World) : Prop where
  asked : Asked w w'
  frame : ∀ frame, pc = .generating frame → frame.state.basis = w'.snapshot.basis

section Generator

variable {frame : GeneratorFrame}

theorem grounded_called (h : state.basis = w.snapshot.basis) :
    Grounded w (w.called (.streamPrd state.userIdea state.targetAudience state.userConstraints
      state.currentIteration plan (baselinePrd state) state.outputLanguage)) := by
  refine ⟨rfl, 1, ?_⟩
  unfold World.streamed World.called
  rw [List.filterMap_append, ← asks_eq h]
  rfl

theorem wp_openStream_grounded (h : state.basis = w.snapshot.basis) :
    wp (openStream env state plan attempt) w (fun _ w' => Grounded w w')
      fun _ w' => Grounded w w' := by
  have hcalled := @grounded_called _ _ plan h
  unfold openStream
  rw [wp_bind, wp_modify, wp_bind, wp_monotonic, wp_bind, wp_monotonic, wp_bind]
  apply wp_mono ((keeping_remainingRunSeconds : Keeping World.grounds _) _)
  . intro remaining w1 h1
    apply wp_mono ((keeping_awaitEvent : Keeping World.grounds _) w1)
    . intro _ w2 h2
      exact hcalled.keep (h2.trans h1)
    . intro _ w2 h2
      exact hcalled.keep (h2.trans h1)
  . intro _ w1 h1
    exact hcalled.keep h1

theorem wp_commitVersion_draws {content : String} {usage : TokenUsage} (h : Grounded w w1) :
    wp (commitVersion env state plan attempt content usage) w1 (Draws w)
      fun _ w' => Asked w w' := by
  have hkeeping : Keeping World.streamed (commitVersion env state plan attempt content usage) :=
    keeping_commitVersion fun _ _ _ _ => keeping_commit_streamed
  have hreturns : Returns (fun pc => ∀ frame, pc ≠ .generating frame)
      (commitVersion env state plan attempt content usage) := by
    unfold commitVersion
    apply Returns.bind
    intro _
    apply Returns.bind
    intro elapsed
    apply Returns.bind
    intro now
    split
    . exact .throw _
    . apply Returns.bind
      intro _
      apply Returns.bind
      intro _
      apply Returns.bind
      intro _
      apply Returns.bind
      intro _
      apply Returns.bind
      intro _
      apply Returns.pure
      simp
  apply wp_mono (wp_and (hkeeping w1) (hreturns w1))
  . rintro pc w2 ⟨h2, hpc⟩
    exact ⟨h.asked_trans (.of_streamed h2), fun frame heq => absurd heq (hpc frame)⟩
  . rintro _ w2 ⟨h2, _⟩
    exact h.asked_trans (.of_streamed h2)

theorem wp_runAttempt_draws {body : Prog World Exn (GeneratorFrame ⊕ (String × TokenUsage))}
    {retry : Prog World Exn Pc} (hstate : state.basis = w.snapshot.basis)
    (hbody : wp body w1
      (fun result w' => Grounded w w' ∧ ∀ frame, result = .inl frame → frame.state = state)
      fun _ w' => Grounded w w')
    (hretry : ∀ w', Grounded w w' → wp retry w' (Draws w) fun _ w' => Asked w w') :
    wp (runAttempt env state plan attempt body retry) w1 (Draws w) fun _ w' => Asked w w' := by
  unfold runAttempt
  rw [wp_bind, wp_tryCatch, wp_bind]
  apply wp_mono hbody
  . rintro result w2 ⟨h2, hframe⟩
    rw [wp_pure]
    cases result with
    | inl frame =>
      refine ⟨h2.asked, ?_⟩
      rintro _ ⟨⟩
      rw [hframe frame rfl, h2.basis]
      exact hstate
    | inr result => exact wp_commitVersion_draws h2
  . intro exn w2 h2
    rw [wp_ite]
    split
    . rw [wp_bind]
      apply wp_mono ((keeping_attemptFailed : Keeping World.grounds _) w2)
      . intro _ w3 h3
        exact hretry w3 (h2.keep h3)
      . intro _ w3 h3
        exact (h2.keep h3).asked
    . exact h2.asked

theorem wp_startAttempt_draws {retry : Prog World Exn Pc} (hstate : state.basis = w.snapshot.basis)
    (h : Grounded w w1)
    (hretry : ∀ w', Grounded w w' → wp retry w' (Draws w) fun _ w' => Asked w w') :
    wp (startAttempt env state plan attempt retry) w1 (Draws w) fun _ w' => Asked w w' := by
  unfold startAttempt
  rw [wp_bind]
  apply wp_mono ((keeping_restartRecord : Keeping World.grounds _) w1)
  . intro _ w2 h2
    rw [wp_bind]
    apply wp_mono ((keeping_commitBeginStream : Keeping World.grounds _) w2)
    . intro _ w3 h3
      have h3 : Grounded w w3 := (h.keep h2).keep h3
      apply wp_runAttempt_draws hstate _ hretry
      rw [wp_bind]
      have hopen : state.basis = w3.snapshot.basis := hstate.trans h3.basis.symm
      apply wp_mono (wp_and (wp_openStream_grounded hopen)
        (@wp_openStream_opened env w3 state plan attempt))
      . rintro opened w4 ⟨h4, hopened, _⟩
        refine ⟨h3.trans h4, ?_⟩
        rintro _ ⟨⟩
        exact hopened.state
      . rintro _ w4 ⟨h4, _⟩
        exact h3.trans h4
    . intro _ w3 h3
      exact ((h.keep h2).keep h3).asked
  . intro _ w2 h2
    exact (h.keep h2).asked

theorem wp_retryAttempt_draws (hstate : state.basis = w.snapshot.basis) (h : Grounded w w1) :
    wp (retryAttempt env state plan attempt) w1 (Draws w) fun _ w' => Asked w w' := by
  unfold retryAttempt
  split
  . apply wp_startAttempt_draws hstate h
    intro w2 h2
    exact h2.asked
  . exact h.asked

-- The stage is set before the state is read, which has no part in the basis.
theorem wp_setStage_returns {target : RunStatus} :
    wp (setStage env target) w (fun s w' => s = w'.snapshot) fun _ _ => True := by
  unfold setStage
  rw [wp_bind, wp_get]
  split
  . rfl
  . split
    . rfl
    . rw [wp_transition]
      split
      . apply wp_mono (wp_trivial _)
        . intro _ _ _
          rfl
        . intro _ _ _
          trivial
      . trivial

theorem wp_generatorNode_draws :
    wp (generatorNode env) w (Draws w) fun _ w' => Asked w w' := by
  unfold generatorNode
  rw [wp_bind]
  apply wp_mono ((keeping_checkCancel : Keeping World.grounds _) w)
  . intro _ w1 h1
    rw [wp_bind]
    apply wp_mono (wp_and ((keeping_setStage : Keeping World.grounds _) w1) wp_setStage_returns)
    . rintro state w2 ⟨h2, hstate⟩
      have h2 : Grounded w w2 := .of_grounds (h2.trans h1)
      rw [wp_bind]
      apply wp_mono ((keeping_markNode : Keeping World.grounds _) w2)
      . intro _ w3 h3
        dsimp only
        rw [wp_bind]
        apply wp_mono ((keeping_restartRecord : Keeping World.grounds _) w3)
        . intro _ w4 h4
          have hbasis : state.basis = w.snapshot.basis := by
            rw [hstate]
            exact h2.basis
          apply wp_startAttempt_draws hbasis ((h2.keep h3).keep h4)
          intro w5 h5
          exact wp_retryAttempt_draws hbasis h5
        . intro _ w4 h4
          exact ((h2.keep h3).keep h4).asked
      . intro _ w3 h3
        exact (h2.keep h3).asked
    . rintro _ w2 ⟨h2, _⟩
      exact (Grounded.of_grounds (h2.trans h1)).asked
  . intro _ w1 h1
    exact (Grounded.of_grounds h1).asked

theorem wp_generatorWake_draws {answer : Answer (Option ProviderTextEvent)}
    (h : frame.state.basis = w.snapshot.basis) :
    wp (generatorWake env frame answer) w (Draws w) fun _ w' => Asked w w' := by
  unfold generatorWake
  apply wp_runAttempt_draws h
  . apply wp_mono (wp_and ((keeping_resumeStream : Keeping World.grounds _) w)
      wp_resumeStream_resumed)
    . rintro result w1 ⟨h1, hresumed⟩
      refine ⟨.of_grounds h1, ?_⟩
      rintro frame' rfl
      obtain ⟨event, _, hfed⟩ := hresumed
      exact hfed.state
    . rintro _ w1 ⟨h1, _⟩
      exact .of_grounds h1
  . intro w1 h1
    exact wp_retryAttempt_draws h h1

end Generator

section Step

variable {wenv : WorkflowEnv} {c c' : Config} {label : Label}

-- What the node that generates has read is still what the snapshot is about.
def Reads (c : Config) : Prop :=
  ∀ frame, c.pc = .generating frame → frame.state.basis = c.world.snapshot.basis

theorem runTask_draws {program : Prog World Exn Pc}
    (h : wp program w (Draws w) fun _ w' => Asked w w') :
    Draws w (runTask env program w).pc (runTask env program w).world := by
  cases runTask_cases World.streamed h with
  | inl hdraws => exact hdraws
  | inr hfinished =>
    obtain ⟨w1, exn, ⟨n, hn⟩, hstreamed, hpc⟩ := hfinished
    refine ⟨⟨n, hstreamed.trans hn⟩, ?_⟩
    intro frame hframe
    rw [hpc] at hframe
    contradiction

theorem stepTask_streamed {pc : Pc} (hpc : place pc ≠ .toGenerator ∧ place pc ≠ .generating)
    (hstep : stepTask wenv w pc label = some c') : c'.world.streamed = w.streamed :=
  stepTask_keeps hpc (fun _ _ => overlooks_streamed rfl) (fun _ _ _ => overlooks_streamed rfl)
    (fun _ _ => overlooks_streamed rfl) (fun _ _ => overlooks_streamed rfl)
    (fun _ _ _ _ => keeping_commit_streamed) (fun _ _ _ => keeping_commit_streamed) hstep

theorem step_request_grounds (hlabel : label.isRequest = true)
    (hstep : step wenv c label = some c') : c'.world.grounds = c.world.grounds := by
  apply step_request_keeps hlabel _ hstep
  intro userOverride payload
  apply Keeping.grounds
  apply keeping_commit_withCalls apart_basis.toStampless
  exact keeping_resumeMutation fun _ => rfl

/--
A step of the run makes streaming calls only where the task generates, and from the snapshot there.
-/
theorem step_draws (hreads : Reads c) (hstep : step wenv c label = some c') :
    Reads c'
      ∧
    (c'.world.streamed = c.world.streamed
      ∨ (place c.pc = .toGenerator ∨ place c.pc = .generating) ∧ Asked c.world c'.world) := by
  cases hlabel : label.isRequest with
  | true =>
    have hgrounds := step_request_grounds hlabel hstep
    have hpc := step_request hlabel hstep
    refine ⟨?_, .inl (congrArg Prod.snd hgrounds)⟩
    intro frame hframe
    rw [hpc] at hframe
    rw [hreads frame hframe]
    exact (congrArg Prod.fst hgrounds).symm
  | false =>
    have htask := step_stepTask hlabel hstep
    by_cases hplace : place c.pc = .toGenerator ∨ place c.pc = .generating
    . have hdraws : Draws c.world c'.pc c'.world := by
        cases hpc : c.pc with
        | toGenerator =>
          rw [hpc] at htask
          cases label <;> try contradiction
          cases htask
          exact runTask_draws wp_generatorNode_draws
        | generating frame =>
          rw [hpc] at htask
          cases label <;> try contradiction
          dsimp only [stepTask] at htask
          split at htask
          . cases htask
            exact runTask_draws (wp_generatorWake_draws (hreads frame hpc))
          . contradiction
        | _ =>
          rw [hpc] at hplace
          simp [place] at hplace
      exact ⟨hdraws.frame, .inr ⟨hplace, hdraws.asked⟩⟩
    . rw [not_or] at hplace
      refine ⟨?_, .inl (stepTask_streamed hplace htask)⟩
      intro frame hframe
      have hnext := stepTask_place htask
      rw [hframe] at hnext
      have hgenerating : Place.generating ∈ (place c.pc).next := hnext
      revert hgenerating hplace
      cases place c.pc <;> simp [Place.next]

end Step

section Based

/--
A streaming call for the version after `earlier`, which the run has evaluated: the document that it
passes on is that of their leader.
-/
structure Based (versions : List PRDVersion) (call : Nat × Option String) : Prop where
  positive : 1 ≤ call.1
  le : call.1 - 1 ≤ versions.length
  evaluated : ∀ version ∈ versions.take (call.1 - 1), version.evaluation ≠ none
  leader :
    ∃ best, IsLeader PRDVersion.score (versions.take (call.1 - 1)) best
      ∧ call.2 = best.map fun leader => leader.1.content

variable {versions versions' : List PRDVersion} {call : Nat × Option String}

theorem Based.grow (h : Based versions call) (hsettled : Settled versions versions') :
    Based versions' call := by
  have hget : ∀ i < call.1 - 1, versions'[i]? = versions[i]? := by
    intro i hi
    have hlt : i < versions.length := lt_of_lt_of_le hi h.le
    have hsome : versions[i]? = some versions[i] := List.getElem?_eq_getElem hlt
    rw [hsome]
    apply hsettled i _ hsome
    apply h.evaluated
    rw [List.mem_take_iff_getElem]
    exact ⟨i, by omega, rfl⟩
  have htake : versions'.take (call.1 - 1) = versions.take (call.1 - 1) := by
    apply List.ext_getElem?
    intro i
    rw [List.getElem?_take, List.getElem?_take]
    split
    . next hi => exact hget i hi
    . rfl
  have hle : call.1 - 1 ≤ versions'.length := by
    have hlength := congrArg List.length htake
    rw [List.length_take, List.length_take] at hlength
    have := h.le
    omega
  exact {
    positive := h.positive
    le := hle
    evaluated := by
      rw [htake]
      exact h.evaluated
    leader := by
      rw [htake]
      exact h.leader
  }

-- Only one version has the number.
theorem find?_version (h : Orderly s) {version : PRDVersion} (hmem : version ∈ s.versions) :
    s.versions.find? (fun v => v.version = version.version) = some version := by
  have hnodup : (s.versions.map PRDVersion.version).Nodup := by
    rw [h.numbered]
    exact List.nodup_range'
  rw [List.find?_eq_some_iff_append]
  refine ⟨by simp, ?_⟩
  obtain ⟨before, after, hversions⟩ := List.append_of_mem hmem
  refine ⟨before, after, hversions, ?_⟩
  intro v hv
  rw [hversions, List.map_append, List.map_cons] at hnodup
  have hne := (List.nodup_append.mp hnodup).2.2 v.version (List.mem_map_of_mem hv) version.version
    (by simp)
  simpa using hne

-- What the generator asks for, once every version has been evaluated.
theorem based_asks (horder : Orderly s) (hranked : Ranked s)
    (hpending : s.currentIteration = s.versions.length + 1)
    (hevaluated : ∀ version ∈ s.versions, version.evaluation ≠ none) :
    Based s.versions (asks s) := by
  have hcount : (asks s).1 - 1 = s.versions.length := by
    unfold asks
    omega
  have hall : s.versions.take ((asks s).1 - 1) = s.versions := by
    rw [hcount, List.take_length]
  obtain ⟨best, hleader, hversion, _⟩ := hranked
  constructor
  . exact horder.positive
  . omega
  . rw [hall]
    exact hevaluated
  . rw [hall]
    refine ⟨best, hleader, ?_⟩
    change baselinePrd s = _
    unfold baselinePrd
    cases hleader with
    | unscored hnone =>
      cases hlast : s.versions.getLast? with
      | none => rfl
      | some last =>
        have hmem := List.mem_of_getLast? hlast
        have hscore := hnone last hmem
        rw [PRDVersion.score_eq_none] at hscore
        exact absurd hscore (hevaluated last hmem)
    | @leads version score hleads =>
      cases hlast : s.versions.getLast? with
      | none =>
        rw [List.getLast?_eq_none_iff] at hlast
        have hmem := hleads.mem
        rw [hlast] at hmem
        contradiction
      | some last =>
        rw [hversion]
        dsimp only [Option.map_some]
        rw [find?_version horder hleads.mem]

theorem Based.first (h : Based versions call) (hfirst : call.1 = 1) : call.2 = none := by
  obtain ⟨best, hleader, hcall⟩ := h.leader
  rw [hfirst, Nat.sub_self, List.take_zero] at hleader
  rw [hcall, hleader.unique .nil]
  rfl

theorem Based.later (h : Based versions call) (hlater : 2 ≤ call.1) :
    ∃ version score, Leads PRDVersion.score (versions.take (call.1 - 1)) version score
      ∧ call.2 = some version.content := by
  obtain ⟨best, hleader, hcall⟩ := h.leader
  cases hleader with
  | leads hleads => exact ⟨_, _, hleads, hcall⟩
  | unscored hnone =>
    exfalso
    have hle := h.le
    have hlt : 0 < (versions.take (call.1 - 1)).length := by
      rw [List.length_take]
      omega
    have hmem := List.getElem_mem hlt
    have hscore := hnone _ hmem
    rw [PRDVersion.score_eq_none] at hscore
    exact h.evaluated _ hmem hscore

end Based

section Run

variable {wenv : WorkflowEnv} {runId : RunId} {request : CreateRunRequest} {outputLanguage : String}
  {bufferSize : Nat} {c : Config}

theorem PcInv.pending {v : View} {pc : Pc} (h : PcInv v pc)
    (hplace : place pc = .toGenerator ∨ place pc = .generating) : At v .pending := by
  cases pc with
  | toGenerator => exact h.1
  | generating frame => exact h.1.stage
  | _ => simp [place] at hplace

theorem Reachable.orderly (h : Reachable wenv runId request outputLanguage bufferSize c) :
    Orderly c.world.snapshot :=
  h.history.orderly (orderly_create _ _ _ _ _)

theorem Reachable.ranked (h : Reachable wenv runId request outputLanguage bufferSize c) :
    Ranked c.world.snapshot :=
  h.history.ranked (orderly_create _ _ _ _ _) (ranked_create _ _ _ _ _)

theorem Reachable.based (h : Reachable wenv runId request outputLanguage bufferSize c) :
    Reads c ∧ ∀ call ∈ c.world.streamed, Based c.world.snapshot.versions call := by
  induction h with
  | refl =>
    refine ⟨?_, ?_⟩
    . rintro frame ⟨⟩
    . intro call hcall
      simp [init, create, World.streamed] at hcall
  | @tail c c' label hreaches _ hstep ih =>
    obtain ⟨hreads, hbased⟩ := ih
    obtain ⟨hreads', hstreamed⟩ := step_draws hreads hstep
    have hreach : Reachable wenv runId request outputLanguage bufferSize c := hreaches
    obtain ⟨later, _, hhistory⟩ := (Keeps.step hreach.inv hstep).sound.history
    refine ⟨hreads', ?_⟩
    intro call hcall
    apply Based.grow _ hhistory.settled
    rcases hstreamed with hsame | ⟨hplace, n, hasked⟩
    . rw [hsame] at hcall
      exact hbased call hcall
    . rw [hasked, List.mem_append, List.mem_replicate] at hcall
      rcases hcall with hold | ⟨_, rfl⟩
      . exact hbased call hold
      . have hat := hreach.inv.pc.pending hplace
        apply based_asks hreach.orderly hreach.ranked hat.facts.1
        intro version hmem
        obtain ⟨evaluation, hevaluation, _⟩ := hat.facts.2 version hmem
        rw [hevaluation]
        simp

end Run

end Workflow

end AgenticPrd
