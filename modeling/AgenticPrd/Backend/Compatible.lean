import AgenticPrd.Backend.Workflow.Basic
import Mathlib.Data.List.DropRight

/-!
The streaming call of the provider adapter for OpenAI-compatible endpoints (`compatible.py`): how
the chunks of a completion become the events that the workflow reads.
-/

namespace AgenticPrd

namespace Compatible

structure StreamChoice where
  finishReason : Option String
  content : Option String
  deriving DecidableEq

-- The counts of a `usage` object; a field that is absent is `none`.
structure UsageFields where
  promptTokens : Option ℤ
  inputTokens : Option ℤ
  completionTokens : Option ℤ
  outputTokens : Option ℤ
  totalTokens : Option ℤ
  deriving DecidableEq

structure StreamChunk where
  choices : List StreamChoice
  usage : Option UsageFields
  deriving DecidableEq

-- A value that Python takes for true.
def truthy (text : Option String) : Option String :=
  text.filter fun s => s ≠ ""

-- `_usage`, `none` where `TokenUsage` rejects the counts.
def usage? (value : UsageFields) : Option TokenUsage :=
  let inputTokens := value.promptTokens.getD (value.inputTokens.getD 0)
  let outputTokens := value.completionTokens.getD (value.outputTokens.getD 0)
  let totalTokens := value.totalTokens.getD (inputTokens + outputTokens)
  if 0 ≤ inputTokens ∧ 0 ≤ outputTokens ∧ totalTokens = inputTokens + outputTokens then
    some (.ofTokens inputTokens.toNat outputTokens.toNat)
  else
    none

-- The reason that the loop remembers after the choices of a chunk.
def rememberReason (finishReason : Option String) (choices : List StreamChoice) : Option String :=
  choices.foldl (fun reason choice => truthy choice.finishReason <|> reason) finishReason

def choiceEvents (choices : List StreamChoice) : List ProviderTextEvent :=
  choices.filterMap fun choice =>
    (truthy choice.content).map fun delta =>
      {
        delta
        usage := none
        finishReason := none
      }

/--
The loop of `stream_prd` over the chunks of a stream that ends: the events that it yields, and what
it raises after them.
-/
def streamChunks (finishReason : Option String) :
    List StreamChunk → List ProviderTextEvent × Option ProviderExn
  | [] => ([], none)
  | chunk :: chunks =>
    let finishReason := rememberReason finishReason chunk.choices
    let events := choiceEvents chunk.choices
    match chunk.usage with
    | none =>
      let (later, exn) := streamChunks finishReason chunks
      (events ++ later, exn)
    | some value =>
      match usage? value with
      | none => (events, some .validationError)
      | some usage =>
        let (later, exn) := streamChunks finishReason chunks
        (events ++ { delta := "", usage := some usage, finishReason } :: later, exn)

def streamPrd (chunks : List StreamChunk) : List ProviderTextEvent × Option ProviderExn :=
  streamChunks none chunks

-- How the stream goes on after its events: it ends, or it raises.
def streamEnd (chunks : List StreamChunk) : Answer (Option ProviderTextEvent) :=
  match (streamPrd chunks).2 with
  | none => .returned none
  | some exn => .raised exn

-- `TokenUsage` accepts the counts of every chunk that has some.
def UsageValid (chunks : List StreamChunk) : Prop :=
  ∀ chunk ∈ chunks, ∀ value ∈ chunk.usage, (usage? value).isSome = true

-- The last non-empty reason that the endpoint has sent.
def lastReason (chunks : List StreamChunk) : Option String :=
  rememberReason none (chunks.flatMap StreamChunk.choices)

-- The chunks up to the last one with usage, and those after it.
def meteredChunks (chunks : List StreamChunk) : List StreamChunk :=
  chunks.rdropWhile fun chunk => chunk.usage.isNone

def unmeteredChunks (chunks : List StreamChunk) : List StreamChunk :=
  chunks.rtakeWhile fun chunk => chunk.usage.isNone

-- What the last event with a reason says, in the way the workflow reads it.
def noteReason (finishReason : Option String) (event : ProviderTextEvent) : Option String :=
  truthy event.finishReason <|> finishReason

section Reason

variable {finishReason : Option String}

@[simp]
theorem truthy_truthy (text : Option String) : truthy (truthy text) = truthy text := by
  unfold truthy
  cases text with
  | none => rfl
  | some s =>
    by_cases h : s = ""
    . simp [h]
    . simp [Option.filter, h]

theorem rememberReason_append (left right : List StreamChoice) :
    rememberReason finishReason (left ++ right)
      =
    rememberReason (rememberReason finishReason left) right := by
  unfold rememberReason
  rw [List.foldl_append]

-- What was remembered before gives way to a later reason.
theorem rememberReason_eq (choices : List StreamChoice) :
    rememberReason finishReason choices = (rememberReason none choices <|> finishReason) := by
  induction choices generalizing finishReason with
  | nil => simp [rememberReason]
  | cons choice choices ih =>
    have hcons : ∀ reason, rememberReason reason (choice :: choices)
        = rememberReason (truthy choice.finishReason <|> reason) choices := fun _ => rfl
    rw [hcons, hcons, ih, @ih (truthy choice.finishReason <|> none)]
    cases rememberReason none choices <;> cases truthy choice.finishReason <;> rfl

theorem truthy_rememberReason (choices : List StreamChoice) (h : truthy finishReason = finishReason) :
    truthy (rememberReason finishReason choices) = rememberReason finishReason choices := by
  induction choices generalizing finishReason with
  | nil => exact h
  | cons choice choices ih =>
    apply ih
    dsimp only
    have hchoice := truthy_truthy choice.finishReason
    generalize truthy choice.finishReason = reason at hchoice ⊢
    cases reason with
    | none => exact h
    | some _ => exact hchoice

theorem lastReason_append (left right : List StreamChunk) :
    lastReason (left ++ right) = (lastReason right <|> lastReason left) := by
  unfold lastReason
  rw [List.flatMap_append, rememberReason_append, rememberReason_eq]

theorem truthy_lastReason (chunks : List StreamChunk) :
    truthy (lastReason chunks) = lastReason chunks :=
  truthy_rememberReason _ rfl

theorem metered_append_unmetered (chunks : List StreamChunk) :
    meteredChunks chunks ++ unmeteredChunks chunks = chunks :=
  List.rdropWhile_append_rtakeWhile

-- What has been metered before adds nothing to the last reason of all.
theorem lastReason_orElse_metered (chunks : List StreamChunk) (chunk : StreamChunk) :
    (lastReason (chunks ++ [chunk]) <|> lastReason (meteredChunks chunks))
      =
    lastReason (chunks ++ [chunk]) := by
  have hmetered := lastReason_append (meteredChunks chunks) (unmeteredChunks chunks)
  rw [metered_append_unmetered] at hmetered
  rw [lastReason_append, hmetered]
  cases lastReason [chunk] <;> cases lastReason (unmeteredChunks chunks) <;>
    cases lastReason (meteredChunks chunks) <;> rfl

end Reason

section Stream

variable {finishReason : Option String} {chunks : List StreamChunk}

theorem streamChunks_cons (chunk : StreamChunk) (chunks : List StreamChunk) :
    streamChunks finishReason (chunk :: chunks)
      =
    let finishReason := rememberReason finishReason chunk.choices
    let later := streamChunks finishReason chunks
    match chunk.usage with
    | none => (choiceEvents chunk.choices ++ later.1, later.2)
    | some value =>
      match usage? value with
      | none => (choiceEvents chunk.choices, some .validationError)
      | some usage =>
        (
          choiceEvents chunk.choices ++ { delta := "", usage := some usage, finishReason } :: later.1,
          later.2
        ) :=
  rfl

-- A stream raises at the first counts that are rejected, and at nothing else.
theorem streamChunks_ends : (streamChunks finishReason chunks).2 = none ↔ UsageValid chunks := by
  induction chunks generalizing finishReason with
  | nil => simp [streamChunks, UsageValid]
  | cons chunk chunks ih =>
    have hcons : UsageValid (chunk :: chunks)
        ↔ (∀ value ∈ chunk.usage, (usage? value).isSome = true) ∧ UsageValid chunks :=
      List.forall_mem_cons
    rw [streamChunks_cons, hcons]
    cases husage : chunk.usage with
    | none => simpa using ih
    | some value =>
      cases hvalue : usage? value with
      | none => simp [hvalue]
      | some usage => simpa [hvalue] using ih

theorem streamEnd_ends : streamEnd chunks = .returned none ↔ UsageValid chunks := by
  have hends : (streamPrd chunks).2 = none ↔ UsageValid chunks := streamChunks_ends
  rw [← hends]
  unfold streamEnd
  cases (streamPrd chunks).2 <;> simp

-- A stream that raises at none of its chunks goes through them one part after the other.
theorem streamChunks_append {left right : List StreamChunk}
    (h : (streamChunks finishReason (left ++ right)).2 = none) :
    let between := rememberReason finishReason (left.flatMap StreamChunk.choices)
    (streamChunks finishReason left).2 = none ∧ (streamChunks between right).2 = none
      ∧
    (streamChunks finishReason (left ++ right)).1
      =
    (streamChunks finishReason left).1 ++ (streamChunks between right).1 := by
  induction left generalizing finishReason with
  | nil => exact ⟨rfl, h, rfl⟩
  | cons chunk left ih =>
    rw [List.cons_append, streamChunks_cons] at h
    rw [List.cons_append, streamChunks_cons, streamChunks_cons, List.flatMap_cons,
      rememberReason_append]
    cases husage : chunk.usage with
    | none =>
      simp only [husage] at h ⊢
      obtain ⟨hleft, hright, hevents⟩ := ih h
      refine ⟨hleft, hright, ?_⟩
      rw [hevents, List.append_assoc]
    | some value =>
      simp only [husage] at h ⊢
      cases hvalue : usage? value with
      | none => simp [hvalue] at h
      | some usage =>
        simp only [hvalue] at h ⊢
        obtain ⟨hleft, hright, hevents⟩ := ih h
        refine ⟨hleft, hright, ?_⟩
        rw [hevents, List.append_assoc, List.cons_append]

theorem noteReason_choiceEvents (choices : List StreamChoice) :
    (choiceEvents choices).foldl noteReason finishReason = finishReason := by
  unfold choiceEvents
  induction choices with
  | nil => rfl
  | cons choice choices ih =>
    rw [List.filterMap_cons]
    cases truthy choice.content with
    | none => exact ih
    | some delta => exact ih

/--
Only events with usage carry a reason, so the workflow is told the one that was sent last up to the
last chunk with usage.
-/
theorem noteReason_streamPrd (h : (streamPrd chunks).2 = none) :
    (streamPrd chunks).1.foldl noteReason none = lastReason (meteredChunks chunks) := by
  unfold streamPrd at h ⊢
  induction chunks using List.reverseRecOn with
  | nil => rfl
  | append_singleton chunks chunk ih =>
    obtain ⟨hchunks, hlast, hevents⟩ := streamChunks_append h
    have hreason := ih hchunks
    rw [hevents, List.foldl_append, hreason]
    rw [streamChunks_cons] at hlast ⊢
    unfold meteredChunks
    cases husage : chunk.usage with
    | none =>
      rw [List.rdropWhile_concat_pos _ _ _ (by simp [husage])]
      simp only [streamChunks, List.append_nil]
      exact noteReason_choiceEvents _
    | some value =>
      rw [List.rdropWhile_concat_neg _ _ _ (by simp [husage])]
      cases hvalue : usage? value with
      | none => simp [husage, hvalue] at hlast
      | some usage =>
        simp only [hvalue, streamChunks]
        rw [List.foldl_append, noteReason_choiceEvents, ← rememberReason_append, List.foldl_cons,
          List.foldl_nil]
        have hall : rememberReason none (chunks.flatMap StreamChunk.choices ++ chunk.choices)
            = lastReason (chunks ++ [chunk]) := by
          unfold lastReason
          simp
        rw [hall]
        unfold noteReason
        dsimp only
        rw [truthy_lastReason]
        exact lastReason_orElse_metered chunks chunk

end Stream

-- No reason comes after the last chunk with usage, unless it repeats the one before.
def Forwarded (chunks : List StreamChunk) : Prop :=
  lastReason (unmeteredChunks chunks) = none
    ∨
  lastReason (unmeteredChunks chunks) = lastReason (meteredChunks chunks)

instance (chunks : List StreamChunk) : Decidable (Forwarded chunks) :=
  inferInstanceAs (Decidable (_ ∨ _))

theorem forwarded_iff {chunks : List StreamChunk} :
    lastReason (meteredChunks chunks) = lastReason chunks ↔ Forwarded chunks := by
  have h := lastReason_append (meteredChunks chunks) (unmeteredChunks chunks)
  rw [metered_append_unmetered] at h
  unfold Forwarded
  rw [h]
  cases lastReason (unmeteredChunks chunks) with
  | none => simp
  | some reason => simp [eq_comm]

end Compatible

end AgenticPrd
