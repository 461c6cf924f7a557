import AgenticPrd.Backend.RunManager.Rules
import AgenticPrd.Backend.Workflow.Kept
import Mathlib.Algebra.BigOperators.Group.List.Basic
import Mathlib.Algebra.Group.Pi.Lemmas
import Mathlib.Tactic.Abel

/-!
What a run has spent, as its snapshot tells it in several places: the total, the tokens of each node,
the rows of the timings, and the cost. `record_usage` and `record_timing` each write some of them.
-/

namespace AgenticPrd

namespace TokenUsage

theorem ext_tokens {usage usage' : TokenUsage} (hinput : usage.inputTokens = usage'.inputTokens)
    (houtput : usage.outputTokens = usage'.outputTokens) : usage = usage' := by
  have htotal := usage.total_eq
  have htotal' := usage'.total_eq
  cases usage
  cases usage'
  simp_all

instance : Zero TokenUsage :=
  ⟨empty⟩

instance : Add TokenUsage :=
  ⟨add⟩

@[simp]
theorem inputTokens_add (left right : TokenUsage) :
    (left + right).inputTokens = left.inputTokens + right.inputTokens :=
  rfl

@[simp]
theorem outputTokens_add (left right : TokenUsage) :
    (left + right).outputTokens = left.outputTokens + right.outputTokens :=
  rfl

@[simp]
theorem inputTokens_zero : (0 : TokenUsage).inputTokens = 0 :=
  rfl

@[simp]
theorem outputTokens_zero : (0 : TokenUsage).outputTokens = 0 :=
  rfl

instance : AddCommMonoid TokenUsage where
  add_assoc _ _ _ := ext_tokens (Nat.add_assoc _ _ _) (Nat.add_assoc _ _ _)
  zero_add _ := ext_tokens (Nat.zero_add _) (Nat.zero_add _)
  add_zero _ := ext_tokens (Nat.add_zero _) (Nat.add_zero _)
  add_comm _ _ := ext_tokens (Nat.add_comm _ _) (Nat.add_comm _ _)
  nsmul := nsmulRec

theorem add_eq_left {usage spent : TokenUsage} : usage + spent = usage ↔ spent = 0 := by
  constructor
  . intro h
    have hinput := congrArg inputTokens h
    have houtput := congrArg outputTokens h
    rw [inputTokens_add] at hinput
    rw [outputTokens_add] at houtput
    apply ext_tokens
    . rw [inputTokens_zero]
      omega
    . rw [outputTokens_zero]
      omega
  . intro h
    rw [h, add_zero]

theorem add_eq_zero {usage usage' : TokenUsage} : usage + usage' = 0 ↔ usage = 0 ∧ usage' = 0 := by
  constructor
  . intro h
    have hinput := congrArg inputTokens h
    have houtput := congrArg outputTokens h
    simp only [inputTokens_add, inputTokens_zero, Nat.add_eq_zero_iff] at hinput
    simp only [outputTokens_add, outputTokens_zero, Nat.add_eq_zero_iff] at houtput
    exact ⟨ext_tokens hinput.1 houtput.1, ext_tokens hinput.2 houtput.2⟩
  . rintro ⟨rfl, rfl⟩
    rfl

theorem sum_eq_zero {usages : List TokenUsage} : usages.sum = 0 ↔ ∀ usage ∈ usages, usage = 0 := by
  induction usages with
  | nil => simp
  | cons usage usages ih => rw [List.sum_cons, add_eq_zero, ih, List.forall_mem_cons]

end TokenUsage

def NodeTiming.usage (timing : NodeTiming) : TokenUsage :=
  .ofTokens timing.inputTokens timing.outputTokens

theorem timing_of_validate? {node : Node} {version attempt inputTokens outputTokens : Nat}
    {seconds : ℚ} {succeeded : Bool} {timing : NodeTiming}
    (h : NodeTiming.validate? node version attempt seconds succeeded inputTokens outputTokens
      = some timing) :
    timing.node = node ∧ timing.inputTokens = inputTokens ∧ timing.outputTokens = outputTokens := by
  unfold NodeTiming.validate? at h
  split at h
  . cases h
    exact ⟨rfl, rfl, rfl⟩
  . contradiction

structure Bill where
  total : TokenUsage
  tokens : Node → TokenUsage
  timed : Node → TokenUsage
  cost : Option ℚ
  costAvailable : Bool

def RunSnapshot.bill (snapshot : RunSnapshot) : Bill :=
  {
    total := snapshot.totalTokens
    tokens := fun node => (snapshot.nodeTokens node).getD 0
    timed := fun node =>
      ((snapshot.nodeTimings.filter fun timing => timing.node = node).map NodeTiming.usage).sum
    cost := snapshot.estimatedCostUsd
    costAvailable := snapshot.costAvailable
  }

namespace World

def bill (w : World) : Bill :=
  w.snapshot.bill

-- The bill, and what the current attempt of the generator has noted for it.
def meter (w : World) : Bill × Option TokenUsage :=
  (w.bill, w.record.usage)

end World

namespace Workflow

open RunManager Prog

variable {execution : RunExecution} {bill : Bill} {node : Node} {usage : TokenUsage}

def priced (execution : RunExecution) : Bool :=
  execution.isMock
    || (execution.pricing.inputPerMillion.isSome && execution.pricing.outputPerMillion.isSome)

theorem estimateCost_isSome (execution : RunExecution) (usage : TokenUsage) :
    (estimateCost usage execution).isSome = priced execution := by
  unfold estimateCost priced
  cases execution.isMock with
  | true => rfl
  | false => cases execution.pricing.inputPerMillion <;> cases execution.pricing.outputPerMillion <;> rfl

/--
The places of a bill agree: the total is that of the nodes, a node's rows add up to its tokens, and
the cost is that of the total, if anything has been used at all.
-/
structure Balanced (execution : RunExecution) (bill : Bill) : Prop where
  total : bill.total = (Node.all.map bill.tokens).sum
  timed : bill.timed = bill.tokens
  cost : (bill.cost = none ∧ bill.total = 0) ∨ bill.cost = estimateCost bill.total execution
  costAvailable : bill.costAvailable = priced execution

section Writes

-- What `record_usage` and `record_timing` write of a bill.
def billUsage (execution : RunExecution) (node : Node) (usage : TokenUsage) (bill : Bill) : Bill :=
  {
    bill with
    total := bill.total + usage
    tokens := bill.tokens + Pi.single node usage
    cost := estimateCost (bill.total + usage) execution
    costAvailable := execution.isMock || (estimateCost (bill.total + usage) execution).isSome
  }

def billTiming (node : Node) (usage : TokenUsage) (bill : Bill) : Bill :=
  { bill with timed := bill.timed + Pi.single node usage }

theorem bill_addNodeUsage (snapshot : RunSnapshot) :
    (addNodeUsage execution node usage snapshot).bill = billUsage execution node usage snapshot.bill := by
  have htokens :
      (fun other =>
        (Function.update snapshot.nodeTokens node (some (((snapshot.nodeTokens node).getD .empty).add usage))
          other).getD 0)
        =
      (fun other => (snapshot.nodeTokens other).getD 0) + Pi.single node usage := by
    funext other
    rw [Pi.add_apply]
    by_cases hother : other = node
    . subst hother
      rw [Function.update_self, Pi.single_eq_same]
      rfl
    . rw [Function.update_of_ne hother, Pi.single_eq_of_ne hother, add_zero]
  unfold RunSnapshot.bill billUsage addNodeUsage
  dsimp only
  rw [htokens]
  rfl

theorem bill_addTiming (timing : NodeTiming) (snapshot : RunSnapshot) :
    (snapshot.addTiming timing).bill = billTiming timing.node timing.usage snapshot.bill := by
  have htimed :
      (fun node =>
        (((snapshot.nodeTimings ++ [timing]).filter fun timing => timing.node = node).map
          NodeTiming.usage).sum)
        =
      (fun node =>
        ((snapshot.nodeTimings.filter fun timing => timing.node = node).map NodeTiming.usage).sum)
        + Pi.single timing.node timing.usage := by
    funext node
    rw [Pi.add_apply, List.filter_append, List.map_append, List.sum_append]
    by_cases hnode : node = timing.node
    . subst hnode
      simp
    . have hne : timing.node ≠ node := fun h => hnode h.symm
      simp [hnode, hne]
  unfold RunSnapshot.bill billTiming RunSnapshot.addTiming
  dsimp only
  rw [htimed]

theorem billTiming_zero : billTiming node 0 bill = bill := by
  unfold billTiming
  rw [Pi.single_zero, add_zero]

theorem billTiming_billUsage : billTiming node usage (billUsage execution node usage bill)
    = billUsage execution node usage (billTiming node usage bill) :=
  rfl

theorem sum_add_single (tokens : Node → TokenUsage) :
    (Node.all.map (tokens + Pi.single node usage)).sum = (Node.all.map tokens).sum + usage := by
  unfold Node.all
  cases node <;> simp <;> abel

-- One bill grows to another by what has been used at a node.
structure Charged (execution : RunExecution) (bill : Bill) (node : Node) (paid : TokenUsage)
    (bill' : Bill) : Prop where
  balanced : Balanced execution bill'
  tokens : bill'.tokens = bill.tokens + Pi.single node paid

theorem Charged.refl (h : Balanced execution bill) : Charged execution bill node 0 bill :=
  {
    balanced := h
    tokens := by rw [Pi.single_zero, add_zero]
  }

theorem Charged.trans {bill' bill'' : Bill} {paid paid' : TokenUsage}
    (h : Charged execution bill node paid bill') (h' : Charged execution bill' node paid' bill'') :
    Charged execution bill node (paid + paid') bill'' :=
  {
    balanced := h'.balanced
    tokens := by rw [h'.tokens, h.tokens, Pi.single_add, add_assoc]
  }

theorem Balanced.charge (h : Balanced execution bill) (node : Node) (usage : TokenUsage) :
    Charged execution bill node usage (billTiming node usage (billUsage execution node usage bill)) :=
  {
    balanced := {
      total := by
        change bill.total + usage = (Node.all.map (bill.tokens + Pi.single node usage)).sum
        rw [sum_add_single, h.total]
      timed := by
        change bill.timed + _ = bill.tokens + _
        rw [h.timed]
      cost := .inr rfl
      costAvailable := by
        change (execution.isMock || (estimateCost (bill.total + usage) execution).isSome) = _
        rw [estimateCost_isSome]
        unfold priced
        cases execution.isMock <;> rfl
    }
    tokens := rfl
  }

-- A call that is recorded in both ways.
theorem Balanced.charged {w w' : World} {record record' : Option TokenUsage}
    (h : Balanced execution bill) (husage : w.meter = (billUsage execution node usage bill, record))
    (htiming : w'.meter = (billTiming node usage w.bill, record')) :
    Charged execution bill node usage w'.bill := by
  have hused : w.bill = billUsage execution node usage bill := congrArg Prod.fst husage
  have htimed : w'.bill = billTiming node usage w.bill :=
    congrArg Prod.fst htiming
  rw [htimed, hused]
  exact h.charge node usage

end Writes

section Meter

variable {env : Env} {faults : Faults} {α : Type}

theorem record_stamped (env : Env) (w : World) : (stamped env w).record = w.record := by
  obtain ⟨now, elapsed, ticks, _, h⟩ := stamped_eq env w
  rw [h]

theorem record_published (e : RunEvent) (w : World) : (published e w).record = w.record := by
  unfold published
  split <;> rfl

theorem wp_publish_record {durable : Bool} {event : Option RunEventType} {payload : Payload} {w : World} :
    wp (publish env faults durable event payload) w
      (fun envelope w' => (journaled envelope w').record = w.record)
      (fun _ w' => w'.record = w.record) := by
  cases event with
  | none =>
    rw [wp_publish_none]
    split <;> rfl
  | some event =>
    rw [wp_publish]
    cases envelope? env w event payload with
    | none => rfl
    | some e =>
      have hpublished : (published e w.tick).record = w.record := record_published e _
      dsimp only
      split
      . rfl
      . split
        . exact hpublished
        . split
          . exact hpublished
          . exact hpublished

-- No commit touches the record of the attempt.
theorem keeping_commit_record {mutation : Prog RunSnapshot Exn Unit} {event : Option RunEventType}
    {payload : RunSnapshot → Payload} :
    Keeping World.record (commit env faults mutation event payload) := by
  intro w
  have hsame : ∀ s, (stamped env (w.withSnapshot s)).record = w.record := by
    intro s
    apply record_stamped
  rw [wp_commit]
  apply wp_mono (wp_trivial mutation)
  . intro _ s _
    rw [← hsame s]
    apply wp_publish_record
  . intro _ _ _
    rfl

theorem keeping_transition_record {target : RunStatus} {event : RunEventType} {payload : Payload} :
    Keeping World.record (transition env faults target event payload) := by
  intro w
  rw [wp_transition]
  split
  . have hmoved : (stamped env (moved env target w)).record = w.record := by
      rw [record_stamped]
      unfold moved
      split <;> rfl
    rw [← hmoved]
    apply wp_publish_record
  . rfl

theorem aside_bill : Aside RunSnapshot.bill :=
  {
    updatedAt := fun _ _ => rfl
    elapsed := fun _ _ => rfl
    sequence := fun _ _ => rfl
    status := fun _ _ => rfl
    ended := fun _ _ => rfl
    started := fun _ _ => rfl
    marked := fun _ _ _ => rfl
    failed := fun _ _ _ _ _ => rfl
    begun := fun _ _ => rfl
    streamed := fun _ _ => rfl
    reviewed := fun _ _ _ _ => rfl
  }

theorem Keeping.meter {x : Prog World Exn α} (hover : Keeping (withCalls RunSnapshot.bill) x)
    (hrecord : Keeping World.record x) : Keeping World.meter x :=
  (hover.prod hrecord).comp fun both => (both.1.1, both.2.usage)

theorem keeping_commit_meter {mutation : Prog RunSnapshot Exn Unit} {event : Option RunEventType}
    {payload : RunSnapshot → Payload} (hmutation : Keeping RunSnapshot.bill mutation) :
    Keeping World.meter (commit env faults mutation event payload) :=
  Keeping.meter (keeping_commit_withCalls aside_bill.toStampless hmutation) keeping_commit_record

instance : Clocked World.meter :=
  {
    congr := by
      intro w w' hsnapshot _ _ _ _ hrecord
      unfold World.meter World.bill
      rw [hsnapshot, hrecord]
  }

instance : Undrafted World.meter :=
  {
    (inferInstance : Clocked World.meter) with
    keeps_commit := fun hminor => keeping_commit_meter (hminor.keeping aside_bill)
    keeps_transition := fun _ =>
      Keeping.meter (keeping_transition_withCalls aside_bill.toStatusless) keeping_transition_record
    keeps_streaming := fun hstreaming => keeping_commit_meter (hstreaming.keeping aside_bill)
  }

theorem keeping_bill {x : Prog World Exn α} (h : Keeping (withCalls RunSnapshot.bill) x) :
    Keeping World.bill x :=
  h.comp Prod.fst

instance : Unstreamed World.bill :=
  {
    congr := by
      intro w w' hsnapshot _ _
      unfold World.bill
      rw [hsnapshot]
    keeps_commit := fun hminor => keeping_bill (aside_bill.unstreamed.keeps_commit hminor)
    keeps_transition := fun htransit =>
      keeping_bill (aside_bill.unstreamed.keeps_transition htransit)
    keeps_streaming := fun hstreaming =>
      keeping_bill (aside_bill.unstreamed.keeps_streaming hstreaming)
  }

theorem overlooks_meter (call : ProviderCall) : Overlooks World.meter call :=
  fun _ => rfl

end Meter

section Rules

variable {env : Env} {origin w : World} {E : Exn → World → Prop}

theorem wp_recordUsage_meter {node : Node} {usage : TokenUsage} {Q : RunSnapshot → World → Prop}
    (hw : Sound origin w)
    (hQ : ∀ w', Sound origin w' → w'.view = w.view →
      w'.meter = (billUsage env.execution node usage w.bill, w.record.usage) → Q w'.snapshot w') :
    wp (recordUsage env node usage) w Q E := by
  have hsound : wp (recordUsage env node usage) w
      (fun snapshot w' => snapshot = w'.snapshot ∧ Sound origin w' ∧ w'.view = w.view)
      fun _ _ => False := by
    apply wp_recordUsage_sound hw
    intro w' hw' hview
    exact ⟨rfl, hw', hview⟩
  have hbill : wp (recordUsage env node usage) w
      (fun _ w' => w'.bill = billUsage env.execution node usage w.bill)
      fun _ _ => True := by
    apply wp_commit_part (P := fun bill => bill = billUsage env.execution node usage w.bill)
      aside_bill.toStampless
    rw [wp_modify]
    exact bill_addNodeUsage w.snapshot
  apply wp_keeping keeping_commit_record (wp_and hsound hbill)
  . rintro snapshot w' ⟨⟨hsnapshot, hw', hview⟩, hbill'⟩ hrecord
    rw [hsnapshot]
    apply hQ w' hw' hview
    unfold World.meter
    rw [hbill', hrecord]
  . rintro _ _ ⟨hfalse, _⟩ _
    contradiction

theorem wp_recordTiming_meter {node : Node} {version attempt : Nat} {seconds : ℚ}
    {succeeded : Bool} {usage : Option TokenUsage} {Q : RunSnapshot → World → Prop}
    (hw : Sound origin w) (hversion : ValidIteration version) (hattempt : 1 ≤ attempt)
    (hQ : ∀ w', Sound origin w' → w'.view = w.view →
      w'.meter = (billTiming node (usage.getD 0) w.bill, w.record.usage) → Q w'.snapshot w') :
    wp (recordTiming env node version attempt seconds succeeded usage) w Q E := by
  have hsound : wp (recordTiming env node version attempt seconds succeeded usage) w
      (fun snapshot w' => snapshot = w'.snapshot ∧ Sound origin w' ∧ w'.view = w.view)
      fun _ _ => False := by
    apply wp_recordTiming_sound hw hversion hattempt
    intro w' hw' hview
    exact ⟨rfl, hw', hview⟩
  have hbill : wp (recordTiming env node version attempt seconds succeeded usage) w
      (fun _ w' => w'.bill = billTiming node (usage.getD 0) w.bill)
      fun _ _ => True := by
    apply wp_commit_part (P := fun bill => bill = billTiming node (usage.getD 0) w.bill)
      aside_bill.toStampless
    unfold timingMutation
    dsimp only
    split
    . trivial
    . next timing hvalid =>
      rw [wp_modify, bill_addTiming]
      obtain ⟨hnode, hinput, houtput⟩ := timing_of_validate? hvalid
      have husage : timing.usage = usage.getD 0 := by
        unfold NodeTiming.usage
        rw [hinput, houtput]
        cases usage with
        | none => rfl
        | some usage => exact TokenUsage.ext_tokens rfl rfl
      rw [hnode, husage]
      rfl
  apply wp_keeping keeping_commit_record (wp_and hsound hbill)
  . rintro snapshot w' ⟨⟨hsnapshot, hw', hview⟩, hbill'⟩ hrecord
    rw [hsnapshot]
    apply hQ w' hw' hview
    unfold World.meter
    rw [hbill', hrecord]
  . rintro _ _ ⟨hfalse, _⟩ _
    contradiction

end Rules

end Workflow

end AgenticPrd
