import AgenticPrd.Backend.RunManager.Change
import AgenticPrd.Backend.RunStore

/-!
The active node of a run: the loop has work for it, and it is marked as running, until the commit
that ends its work or the run. If the run fails it takes the blame.
-/

namespace AgenticPrd

namespace RunManager

open Workflow

variable {start old s new : RunSnapshot} {event : Option RunEventType} {payload : Payload}
  {sequence : Nat}

structure Posted (s : RunSnapshot) : Prop where
  calls : ∀ node ∈ s.activeNode, s.Calls node
  running : ∀ node ∈ s.activeNode, s.nodeStatuses node = .running
  ended : s.status.isTerminal = true → s.activeNode = none
  unfailed : s.status.isTerminal = false → ∀ node, s.nodeStatuses node ≠ .failed

theorem calls_congr {node : Node} (h : old.Calls node)
    (hiteration : s.currentIteration = old.currentIteration) (hversions : s.versions = old.versions)
    (hmax : s.maxIterations = old.maxIterations) : s.Calls node := by
  unfold RunSnapshot.Calls RunSnapshot.Judged RunSnapshot.Fresh at h ⊢
  rw [hiteration, hversions, hmax]
  exact h

-- A change that leaves the stage of the loop and the nodes alone, and does not open the run again.
theorem Posted.congr (h : Posted old) (hiteration : s.currentIteration = old.currentIteration)
    (hversions : s.versions = old.versions) (hmax : s.maxIterations = old.maxIterations)
    (hstatuses : s.nodeStatuses = old.nodeStatuses) (hactive : s.activeNode = old.activeNode)
    (hstatus : s.status.isTerminal = old.status.isTerminal) : Posted s :=
  {
    calls := by
      rw [hactive]
      intro node hnode
      exact calls_congr (h.calls node hnode) hiteration hversions hmax
    running := by
      rw [hactive, hstatuses]
      exact h.running
    ended := by
      rw [hactive, hstatus]
      exact h.ended
    unfailed := by
      rw [hstatuses, hstatus]
      exact h.unfailed
  }

-- A node that has finished is marked, and no other node is active than before.
theorem Posted.finished (h : Posted old) {node : Node}
    (hstatuses : s.nodeStatuses = Function.update old.nodeStatuses node .succeeded)
    (hactive : ∀ other ∈ s.activeNode, other ∈ old.activeNode ∧ other ≠ node ∧ s.Calls other)
    (hstatus : s.status = old.status) : Posted s :=
  {
    calls := by
      intro other hother
      exact (hactive other hother).2.2
    running := by
      intro other hother
      obtain ⟨hold, hne, _⟩ := hactive other hother
      rw [hstatuses, Function.update_of_ne hne]
      exact h.running other hold
    ended := by
      intro hterminal
      rw [hstatus] at hterminal
      rw [Option.eq_none_iff_forall_not_mem]
      intro other hother
      have hold := (hactive other hother).1
      rw [h.ended hterminal] at hold
      contradiction
    unfailed := by
      intro hopen other
      rw [hstatus] at hopen
      rw [hstatuses]
      by_cases hnode : other = node
      . rw [hnode, Function.update_self]
        simp
      . rw [Function.update_of_ne hnode]
        exact h.unfailed hopen other
  }

-- The run has ended.
theorem Posted.closed (hactive : s.activeNode = none) (hterminal : s.status.isTerminal = true) :
    Posted s :=
  {
    calls := by simp [hactive]
    running := by simp [hactive]
    ended := fun _ => hactive
    unfailed := by simp [hterminal]
  }

theorem Posted.marked (h : Posted old) {node : Node} (hopen : old.status.isTerminal = false)
    (hcalls : old.Calls node) : Posted (markSnapshot node .running old) :=
  {
    calls := by
      intro other hother
      simp only [markSnapshot, reduceCtorEq, List.mem_cons, List.not_mem_nil, or_self, false_and,
        if_true, if_false, Option.mem_some_iff] at hother
      subst hother
      exact calls_congr hcalls rfl rfl rfl
    running := by simp [markSnapshot]
    ended := by
      intro hterminal
      change old.status.isTerminal = true at hterminal
      rw [hopen] at hterminal
      contradiction
    unfailed := by
      intro _ other
      change Function.update old.nodeStatuses node .running other ≠ .failed
      by_cases hnode : other = node
      . rw [hnode, Function.update_self]
        simp
      . rw [Function.update_of_ne hnode]
        exact h.unfailed hopen other
  }

theorem Posted.change (h : Posted old) (hchange : Change old event payload s) : Posted s := by
  cases hchange with
  | @moved now target _ _ hlegal =>
    unfold RunSnapshot.movedTo
    split
    . next hterminal => exact .closed rfl hterminal
    . next hterminal =>
      have hold : old.status.isTerminal = false := by
        cases hold : old.status.isTerminal with
        | false => rfl
        | true =>
          rw [RunStatus.not_canTransition_of_isTerminal hold] at hlegal
          contradiction
      refine h.congr rfl rfl rfl rfl rfl ?_
      rw [hold]
      exact eq_false_of_ne_true hterminal
  | resumed hpaused =>
    refine h.congr rfl rfl rfl rfl rfl ?_
    rw [hpaused]
    rfl
  | failed => exact .closed rfl rfl
  | marked hopen hcalls => exact h.marked hopen hcalls
  | generated => exact h.finished rfl (by simp [RunSnapshot.withVersion]) rfl
  | @reviewed role review =>
    refine h.finished rfl ?_ rfl
    intro other hother
    unfold RunSnapshot.withReview at hother
    dsimp only at hother
    split at hother
    . contradiction
    . next hne =>
      refine ⟨hother, ?_, calls_congr (h.calls other hother) rfl rfl rfl⟩
      rintro rfl
      exact hne hother
  | scored => exact h.finished rfl (by simp [aggregate]) rfl
  | planned => exact h.finished rfl (by simp [RunSnapshot.withPlan]) rfl
  | _ => exact h.congr rfl rfl rfl rfl rfl rfl

theorem Posted.stamped (h : Posted s) (hstamped : Stamped s sequence new) : Posted new := by
  obtain ⟨now, elapsed, _, rfl⟩ := hstamped
  exact h.congr rfl rfl rfl rfl rfl rfl

theorem History.posted {journal : List Commit} (h : History start journal new)
    (hstart : Posted start) : Posted new :=
  h.invariant hstart (fun _ _ _ _ => Posted.change) (fun _ _ _ => Posted.stamped)

theorem posted_create (env : Env) (runId : RunId) (request : CreateRunRequest)
    (outputLanguage : String) (now : Timestamp) :
    Posted (createSnapshot env runId request outputLanguage now) :=
  {
    calls := by simp [createSnapshot]
    running := by simp [createSnapshot]
    ended := fun _ => rfl
    unfailed := by simp [createSnapshot]
  }

section Active

-- The stages of the loop exclude each other, so the one it is at says which node may be active.
theorem Posted.generator (h : Posted s) (hpending : s.currentIteration = s.versions.length + 1) :
    ∀ node ∈ s.activeNode, node = .generator := by
  intro node hnode
  have hcalls := h.calls node hnode
  cases node with
  | generator => rfl
  | _ =>
    have hiteration : s.currentIteration = s.versions.length := hcalls.1
    omega

theorem Posted.optimizer (h : Posted s) (hjudged : s.Judged) :
    ∀ node ∈ s.activeNode, node = .optimizer := by
  intro node hnode
  have hcalls := h.calls node hnode
  cases node with
  | optimizer => rfl
  | generator =>
    have hpending : s.currentIteration = s.versions.length + 1 := hcalls
    have hiteration := hjudged.1
    omega
  | _ =>
    obtain ⟨_, last, hlast, hnone⟩ := hcalls
    exact absurd hnone (hjudged.2.2 last (List.mem_of_mem_getLast? hlast))

-- The nodes of a run that has ended stay as they are.
theorem Change.nodes_closed (h : Change old event payload s)
    (hterminal : old.status.isTerminal = true) :
    s.nodeStatuses = old.nodeStatuses ∧ s.activeNode = old.activeNode := by
  cases h with
  | moved hlegal =>
    rw [RunStatus.not_canTransition_of_isTerminal hterminal] at hlegal
    contradiction
  | resumed hpaused =>
    rw [hpaused] at hterminal
    contradiction
  | failed hopen | marked hopen | generated hopen | reviewed hopen | scored hopen | planned hopen =>
    rw [hopen] at hterminal
    contradiction
  | _ => exact ⟨rfl, rfl⟩

theorem History.nodes_closed {journal : List Commit} (h : History start journal new)
    (hterminal : start.status.isTerminal = true) :
    new.nodeStatuses = start.nodeStatuses ∧ new.activeNode = start.activeNode := by
  have hclosed : new.status.isTerminal = true
      ∧ new.nodeStatuses = start.nodeStatuses ∧ new.activeNode = start.activeNode := by
    apply h.invariant (P := fun s => s.status.isTerminal = true
      ∧ s.nodeStatuses = start.nodeStatuses ∧ s.activeNode = start.activeNode)
    . exact ⟨hterminal, rfl, rfl⟩
    . rintro old event payload s ⟨hold, hstatuses, hactive⟩ hchange
      obtain ⟨hsameStatuses, hsameActive⟩ := hchange.nodes_closed hold
      rw [hchange.terminal hold, hsameStatuses, hsameActive]
      exact ⟨hold, hstatuses, hactive⟩
    . rintro s sequence new hs hstamped
      rw [hstamped.status, hstamped.nodeStatuses, hstamped.activeNode]
      exact hs
  exact hclosed.2

end Active

section Failure

-- What becomes of the nodes when a run fails: the one that is active takes the blame.
structure Blames (old new : RunSnapshot) : Prop where
  statuses :
    ∀ node, new.nodeStatuses node
      = if old.activeNode = some node then .failed else old.nodeStatuses node
  active : new.activeNode = none

theorem Blames.congr {old s new : RunSnapshot} (h : Blames old s)
    (hsame : new.nodeStatuses = s.nodeStatuses ∧ new.activeNode = s.activeNode) : Blames old new :=
  {
    statuses := by
      rw [hsame.1]
      exact h.statuses
    active := by
      rw [hsame.2]
      exact h.active
  }

theorem blames_failSnapshot (code message : String) (retryable : Bool) (now : Timestamp)
    (old : RunSnapshot) : Blames old (failSnapshot code message retryable now old) := by
  refine ⟨?_, rfl⟩
  intro node
  unfold failSnapshot
  dsimp only
  cases old.activeNode with
  | none => simp
  | some active => simp [Function.update_apply, eq_comm]

theorem blames_interrupted (now : Timestamp) (old : RunSnapshot) :
    Blames old (SQLiteRunStore.interrupted now old) := by
  refine ⟨?_, rfl⟩
  intro node
  unfold SQLiteRunStore.interrupted
  dsimp only
  cases old.activeNode with
  | none => simp
  | some active => simp [Function.update_apply, eq_comm]

/--
The failure is attributed to a node that is to blame, if there is one: it is marked as failed, no
node that is not to blame or had succeeded is, and none is left running.
-/
structure Attributed (Culprit : Node → Prop) (old new : RunSnapshot) : Prop where
  marked : (∃ node, Culprit node) → ∃ node, Culprit node ∧ new.nodeStatuses node = .failed
  blamed : ∀ node, new.nodeStatuses node = .failed → Culprit node ∧ old.nodeStatuses node ≠ .succeeded
  settled : ∀ node, new.nodeStatuses node ≠ .running
  idle : new.activeNode = none

-- The active node is to blame, and no other one is running.
structure Alone (Culprit : Node → Prop) (old : RunSnapshot) : Prop where
  active : (∃ node, Culprit node) → old.activeNode ≠ none
  culprit : ∀ node ∈ old.activeNode, Culprit node
  only : ∀ node, old.nodeStatuses node = .running → old.activeNode = some node

theorem Blames.attributed_iff (h : Blames old new) (hold : Posted old)
    (hopen : old.status.isTerminal = false) (Culprit : Node → Prop) :
    Attributed Culprit old new ↔ Alone Culprit old := by
  have hfailed : ∀ node, new.nodeStatuses node = .failed ↔ old.activeNode = some node := by
    intro node
    rw [h.statuses node]
    have hunfailed := hold.unfailed hopen node
    split
    . next hactive => simp [hactive]
    . next hactive => simp [hactive, hunfailed]
  constructor
  . intro hattributed
    constructor
    . intro hculprit hnone
      obtain ⟨node, _, hnode⟩ := hattributed.marked hculprit
      rw [hfailed, hnone] at hnode
      contradiction
    . intro node hnode
      exact (hattributed.blamed node ((hfailed node).mpr hnode)).1
    . intro node hrunning
      have hsettled := hattributed.settled node
      rw [h.statuses node, hrunning] at hsettled
      by_contra hactive
      rw [if_neg hactive] at hsettled
      exact hsettled rfl
  . intro halone
    constructor
    . intro hculprit
      obtain ⟨node, hnode⟩ := Option.ne_none_iff_exists'.mp (halone.active hculprit)
      exact ⟨node, halone.culprit node hnode, (hfailed node).mpr hnode⟩
    . intro node hnode
      have hactive := (hfailed node).mp hnode
      refine ⟨halone.culprit node hactive, ?_⟩
      rw [hold.running node hactive]
      simp
    . intro node
      rw [h.statuses node]
      split
      . simp
      . next hactive =>
        intro hrunning
        exact hactive (halone.only node hrunning)
    . exact h.active

end Failure

end RunManager

end AgenticPrd
