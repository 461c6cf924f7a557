import AgenticPrd.Client.UseAgentRun

/-!
The event sources that the hook has opened and not closed. Beside the hook stand the sources on
which `close` has been called.
-/

namespace AgenticPrd

namespace Client

open Transition

namespace Hook

section Closes

-- `closeSource` calls `close` on the source in `sourceRef`.
def sourceCloses (hook : Hook) : List Nat :=
  hook.source.toList

def connectCloses (hook : Hook) (session : Nat) : List Nat :=
  if hook.isCurrent session then
    hook.sourceCloses
  else
    []

def selectRunCloses (hook : Hook) (runId : RunId) : List Nat :=
  if runId = "" ∨ some runId = hook.state.runId then
    []
  else
    hook.sourceCloses

def retryConnectionCloses (hook : Hook) : List Nat :=
  match hook.state.runId.filter fun runId => runId ≠ "" with
  | some _ => hook.sourceCloses
  | none => []

def loadedCloses (hook : Hook) (session : Nat) (snapshot : RunSnapshot) : List Nat :=
  if snapshot.status.isTerminal then
    []
  else
    hook.connectCloses session

def hydratedCloses (hook : Hook) (session : Nat) : Except Failure RunSnapshot → List Nat
  | .ok snapshot =>
    if hook.isCurrent session then
      hook.loadedCloses session snapshot
    else
      []
  | .error _ =>
    if hook.isCurrent session then
      hook.sourceCloses
    else
      []

-- A recovery that fails has closed its source before it asked for the snapshot.
def recoveredCloses (hook : Hook) (session : Nat) : Except Failure RunSnapshot → List Nat
  | .ok snapshot =>
    if hook.isCurrent session then
      hook.loadedCloses session snapshot
    else
      []
  | .error _ => []

def answerCloses (hook : Hook) : Request → Reply → List Nat
  | .hydrate _ session, .snapshot result => hook.hydratedCloses session result
  | .recover _ session, .snapshot result => hook.recoveredCloses session result
  | _, _ => []

def replyCloses (hook : Hook) (i : Nat) (reply : Reply) : List Nat :=
  match hook.requests[i]? with
  | some request => (hook.settle i).answerCloses request reply
  | none => []

-- A source of another session closes itself when it opens.
def sourceOpenCloses (hook : Hook) (i : Nat) (source : EventSource) : List Nat :=
  if source.session ≠ hook.session then
    [i]
  else
    []

def sourceMessageCloses (hook : Hook) (i : Nat) (source : EventSource) (data : Option Json) :
    List Nat :=
  if source.session ≠ hook.session ∨ hook.source ≠ some i then
    []
  else
    match data.bind parseRunEvent with
    | none => []
    | some event => if endsStream event.event then [i] else []

def sourceErrorCloses (hook : Hook) (i : Nat) (source : EventSource) (closed : Bool) : List Nat :=
  if source.session ≠ hook.session ∨ source.recovering ∨ hook.source ≠ some i then
    []
  else if !closed ∧ source.consecutiveErrors + 1 < maxNativeRetries then
    []
  else
    [i]

-- The calls of `close` that a step makes.
def closes (hook : Hook) : HookLabel → List Nat
  | .mount => []
  | .unmount => hook.sourceCloses
  | .createRun => hook.sourceCloses
  | .selectRun runId => hook.selectRunCloses runId
  | .runControl _ => []
  | .retryConnection => hook.retryConnectionCloses
  | .newRun => hook.sourceCloses
  | .selectVersion _ => []
  | .clearError => []
  | .reply i reply => hook.replyCloses i reply
  | .sourceOpen i => hook.sources[i]?.elim [] (hook.sourceOpenCloses i)
  | .sourceMessage i data =>
    hook.sources[i]?.elim [] fun source => hook.sourceMessageCloses i source data
  | .sourceError i closed =>
    hook.sources[i]?.elim [] fun source => hook.sourceErrorCloses i source closed

end Closes

-- What the handler of a message dispatches.
def messageActions (hook : Hook) (i : Nat) (source : EventSource) (data : Option Json) :
    List RunAction :=
  if source.session ≠ hook.session ∨ hook.source ≠ some i then
    []
  else
    match data.bind parseRunEvent with
    | none => [.error "收到的实时事件格式无效，已停止处理该事件。"]
    | some event =>
      if endsStream event.event then
        [.eventReceived event, .connectionChanged .closed]
      else
        [.eventReceived event]

theorem sourceMessage_state (hook : Hook) (i : Nat) (source : EventSource) (data : Option Json) :
    (hook.sourceMessage i source data).state
      =
    (hook.messageActions i source data).foldl runReducer hook.state := by
  unfold sourceMessage messageActions
  split
  . rfl
  . cases data.bind parseRunEvent with
    | none => rfl
    | some event =>
      dsimp only
      split <;> rfl

end Hook

structure Browser where
  hook : Hook
  closed : List Nat

namespace Browser

def init (url : Option RunId) : Browser :=
  { hook := Hook.init url, closed := [] }

-- React runs the effect again only after its cleanup.
def step (browser : Browser) (label : HookLabel) : Option Browser :=
  match label with
  | .mount =>
    if browser.hook.mounted then
      none
    else
      some { browser with hook := browser.hook.mount }
  | label =>
    (browser.hook.step label).map fun hook =>
      { hook, closed := browser.closed ++ browser.hook.closes label }

-- The source was created and `close` has not been called on it.
def Open (browser : Browser) (i : Nat) : Prop :=
  i < browser.hook.sources.length ∧ i ∉ browser.closed

instance (browser : Browser) (i : Nat) : Decidable (browser.Open i) :=
  inferInstanceAs (Decidable (_ ∧ _))

end Browser

/--
`sourceRef` holds the source that is not closed, which is of the current session.
-/
structure Watched (hook : Hook) (closed : List Nat) : Prop where
  held : ∀ (i : Nat), i < hook.sources.length → i ∉ closed → hook.source = some i
  current : ∀ (i : Nat), hook.source = some i →
    i ∉ closed ∧ ∃ source, hook.sources[i]? = some source ∧ source.session = hook.session
  known : ∀ i ∈ closed, i < hook.sources.length
  mounted : hook.mounted = false → hook.source = none

section Watched

variable {hook hook' : Hook} {closed : List Nat}

theorem Watched.congr (h : Watched hook closed) (hsession : hook'.session = hook.session)
    (hmounted : hook'.mounted = hook.mounted) (hsources : hook'.sources = hook.sources)
    (hsource : hook'.source = hook.source) : Watched hook' closed := by
  constructor
  . rw [hsources, hsource]
    exact h.held
  . rw [hsources, hsource, hsession]
    exact h.current
  . rw [hsources]
    exact h.known
  . rw [hmounted, hsource]
    exact h.mounted

-- Only the source in `sourceRef` can be open, so closing it leaves none open.
theorem Watched.closeSource (h : Watched hook closed) :
    Watched hook.closeSource (closed ++ hook.sourceCloses) := by
  constructor
  . intro i hi hnot
    simp only [List.mem_append, Hook.sourceCloses, Option.mem_toList, not_or] at hnot
    exact absurd (h.held i hi hnot.1) hnot.2
  . intro i hi
    contradiction
  . intro i hmem
    simp only [List.mem_append, Hook.sourceCloses, Option.mem_toList] at hmem
    cases hmem with
    | inl hmem => exact h.known i hmem
    | inr heq =>
      obtain ⟨_, source, hget, _⟩ := h.current i heq
      exact (List.getElem?_eq_some_iff.mp hget).1
  . intro _
    rfl

theorem Watched.nextSession (h : Watched hook closed) (hnone : hook.source = none) :
    Watched hook.nextSession closed := by
  constructor
  . exact h.held
  . intro i hi
    have : hook.source = some i := hi
    simp [hnone] at this
  . exact h.known
  . exact h.mounted

-- A call that starts a session closes the source of the one before.
theorem Watched.restart (h : Watched hook closed) :
    Watched hook.nextSession.closeSource (closed ++ hook.sourceCloses) :=
  h.closeSource.nextSession rfl

theorem Watched.setSource {i : Nat} {source source' : EventSource} (h : Watched hook closed)
    (hi : hook.sources[i]? = some source) (hsession : source'.session = source.session) :
    Watched (hook.setSource i source') closed := by
  constructor
  . simp only [Hook.setSource, List.length_set]
    exact h.held
  . intro j hj
    obtain ⟨hopen, current, hget, hcurrent⟩ := h.current j hj
    refine ⟨hopen, ?_⟩
    simp only [Hook.setSource, List.getElem?_set]
    split
    . next heq =>
      subst heq
      rw [hget] at hi
      cases hi
      simp [(List.getElem?_eq_some_iff.mp hget).1, hsession, hcurrent]
    . exact ⟨current, hget, hcurrent⟩
  . simp only [Hook.setSource, List.length_set]
    exact h.known
  . exact h.mounted

theorem Watched.connect {runId : RunId} {afterSequence : ℚ} {session : Nat}
    (h : Watched hook closed) :
    Watched (hook.connect runId afterSequence session)
      (closed ++ hook.connectCloses session) := by
  unfold Hook.connect Hook.connectCloses
  split
  . next hcurrent =>
    simp only [Hook.isCurrent, Bool.and_eq_true, beq_iff_eq] at hcurrent
    have hclosed := h.closeSource
    constructor
    . intro i hi hnot
      simp only [Hook.dispatch, Hook.closeSource, List.length_append, List.length_singleton] at hi ⊢
      by_cases hlt : i < hook.sources.length
      . have := hclosed.held i hlt hnot
        contradiction
      . have heq : i = hook.sources.length := by omega
        rw [heq]
    . intro i hi
      simp only [Hook.dispatch, Hook.closeSource, Option.some.injEq] at hi
      subst hi
      constructor
      . intro hmem
        exact absurd (hclosed.known _ hmem) (Nat.lt_irrefl _)
      . simp [Hook.dispatch, Hook.closeSource, hcurrent.2]
    . intro i hmem
      have := hclosed.known i hmem
      simp only [Hook.dispatch, Hook.closeSource, List.length_append,
        List.length_singleton] at this ⊢
      omega
    . simp [Hook.dispatch, Hook.closeSource, hcurrent.1]
  . simpa using h

theorem Watched.loaded {runId : RunId} {session : Nat} {snapshot : RunSnapshot}
    (h : Watched hook closed) :
    Watched (hook.loaded runId session snapshot)
      (closed ++ hook.loadedCloses session snapshot) := by
  have hloaded : Watched (hook.dispatch [.snapshotLoaded snapshot]) closed :=
    h.congr rfl rfl rfl rfl
  unfold Hook.loaded Hook.loadedCloses
  dsimp only
  split
  . rw [List.append_nil]
    exact hloaded.congr rfl rfl rfl rfl
  . exact hloaded.connect

theorem Watched.hydrated {runId : RunId} {session : Nat} {result : Except Failure RunSnapshot}
    (h : Watched hook closed) :
    Watched (hook.hydrated runId session result)
      (closed ++ hook.hydratedCloses session result) := by
  cases result with
  | ok snapshot =>
    simp only [Hook.hydrated, Hook.hydratedCloses]
    split
    . exact h.loaded
    . simpa using h
  | error failure =>
    simp only [Hook.hydrated, Hook.hydratedCloses]
    split
    . exact h.closeSource.congr rfl rfl rfl rfl
    . simpa using h

theorem Watched.recovered {runId : RunId} {session : Nat} {result : Except Failure RunSnapshot}
    (h : Watched hook closed) :
    Watched (hook.recovered runId session result)
      (closed ++ hook.recoveredCloses session result) := by
  cases result with
  | ok snapshot =>
    simp only [Hook.recovered, Hook.recoveredCloses]
    split
    . exact h.loaded
    . simpa using h
  | error failure =>
    simp only [Hook.recovered, Hook.recoveredCloses, List.append_nil]
    split
    . exact h.congr rfl rfl rfl rfl
    . exact h

theorem Watched.created {session : Nat} {result : Except Failure RunId}
    (h : Watched hook closed) : Watched (hook.created session result) closed := by
  cases result with
  | ok runId =>
    simp only [Hook.created]
    split
    . exact h.congr rfl rfl rfl rfl
    . exact h
  | error failure =>
    simp only [Hook.created]
    split
    . exact h.congr rfl rfl rfl rfl
    . exact h

-- A snapshot is answered by `hydrated` or by `recovered`.
theorem Watched.answer {request : Request} {reply : Reply} (h : Watched hook closed)
    (hanswer : hook.answer request reply = some hook') :
    Watched hook' (closed ++ hook.answerCloses request reply) := by
  unfold Hook.answer at hanswer
  split at hanswer
  . cases hanswer
    simpa [Hook.answerCloses] using h.created
  . next runId session result =>
    have hydrated : Watched (hook.hydrated runId session result)
        (closed ++ hook.hydratedCloses session result) := h.hydrated
    cases result with
    | ok snapshot =>
      simp only [Option.ite_none_right_eq_some, Option.some.injEq] at hanswer
      rw [← hanswer.2]
      exact hydrated
    | error failure =>
      cases hanswer
      exact hydrated
  . next runId session result =>
    have recovered : Watched (hook.recovered runId session result)
        (closed ++ hook.recoveredCloses session result) := h.recovered
    cases result with
    | ok snapshot =>
      simp only [Option.ite_none_right_eq_some, Option.some.injEq] at hanswer
      rw [← hanswer.2]
      exact recovered
    | error failure =>
      cases hanswer
      exact recovered
  . cases hanswer
    simp only [Hook.answerCloses, List.append_nil]
    exact h.congr rfl rfl rfl rfl
  . contradiction

theorem Watched.reply {i : Nat} {reply : Reply} (h : Watched hook closed)
    (hreply : hook.reply i reply = some hook') :
    Watched hook' (closed ++ hook.replyCloses i reply) := by
  unfold Hook.reply at hreply
  unfold Hook.replyCloses
  cases hi : hook.requests[i]? with
  | none =>
    rw [hi] at hreply
    contradiction
  | some request =>
    rw [hi] at hreply
    have hsettled : Watched (hook.settle i) closed := h.congr rfl rfl rfl rfl
    exact hsettled.answer hreply

theorem Watched.mount (h : Watched hook closed) (hmounted : hook.mounted = false) :
    Watched hook.mount closed := by
  have hnone := h.mounted hmounted
  have hmount : Watched { hook with mounted := true } closed := by
    constructor
    . exact h.held
    . exact h.current
    . exact h.known
    . simp
  unfold Hook.mount
  dsimp only
  split
  . exact (hmount.nextSession hnone).congr rfl rfl rfl rfl
  . exact hmount

theorem Watched.unmount (h : Watched hook closed) :
    Watched hook.unmount (closed ++ hook.sourceCloses) := by
  have hrestart := h.restart
  constructor
  . exact hrestart.held
  . exact hrestart.current
  . exact hrestart.known
  . intro _
    rfl

theorem Watched.selectRun {runId : RunId} (h : Watched hook closed) :
    Watched (hook.selectRun runId) (closed ++ hook.selectRunCloses runId) := by
  unfold Hook.selectRun Hook.selectRunCloses
  split
  . simpa using h
  . exact h.restart.congr rfl rfl rfl rfl

theorem Watched.retryConnection (h : Watched hook closed) :
    Watched hook.retryConnection (closed ++ hook.retryConnectionCloses) := by
  unfold Hook.retryConnection Hook.retryConnectionCloses
  cases hook.state.runId.filter fun runId => runId ≠ "" with
  | none => simpa using h
  | some runId => exact h.restart.congr rfl rfl rfl rfl

theorem Watched.runControl {control : Control} (h : Watched hook closed) :
    Watched (hook.runControl control) closed := by
  unfold Hook.runControl
  split
  . exact h.congr rfl rfl rfl rfl
  . exact h

-- Closing a source twice changes nothing.
theorem Watched.close_again {i : Nat} (h : Watched hook closed) (hi : i < hook.sources.length)
    (hne : hook.source ≠ some i) : Watched hook (closed ++ [i]) := by
  constructor
  . intro j hj hnot
    simp only [List.mem_append, not_or] at hnot
    exact h.held j hj hnot.1
  . intro j hj
    obtain ⟨hopen, hget⟩ := h.current j hj
    refine ⟨?_, hget⟩
    simp only [List.mem_append, List.mem_singleton, not_or]
    refine ⟨hopen, ?_⟩
    intro heq
    rw [← heq] at hne
    contradiction
  . intro j hmem
    simp only [List.mem_append, List.mem_singleton] at hmem
    cases hmem with
    | inl hmem => exact h.known j hmem
    | inr heq =>
      rw [heq]
      exact hi
  . exact h.mounted

theorem Watched.sourceOpen {i : Nat} {source : EventSource} (h : Watched hook closed)
    (hi : hook.sources[i]? = some source) :
    Watched (hook.sourceOpen i source) (closed ++ hook.sourceOpenCloses i source) := by
  unfold Hook.sourceOpen Hook.sourceOpenCloses
  split
  . next hstale =>
    apply h.close_again (List.getElem?_eq_some_iff.mp hi).1
    intro hsource
    obtain ⟨_, current, hget, hcurrent⟩ := h.current i hsource
    rw [hi] at hget
    cases hget
    contradiction
  . rw [List.append_nil]
    have hset : Watched (hook.setSource i { source with consecutiveErrors := 0 }) closed :=
      h.setSource hi rfl
    exact hset.congr rfl rfl rfl rfl

theorem Watched.sourceMessage {i : Nat} {source : EventSource} {data : Option Json}
    (h : Watched hook closed) :
    Watched (hook.sourceMessage i source data)
      (closed ++ hook.sourceMessageCloses i source data) := by
  unfold Hook.sourceMessage Hook.sourceMessageCloses
  split
  . simpa using h
  . next hguard =>
    simp only [not_or, not_not] at hguard
    cases data.bind parseRunEvent with
    | none =>
      rw [List.append_nil]
      exact h.congr rfl rfl rfl rfl
    | some event =>
      dsimp only
      split
      . have hclosed := h.closeSource
        rw [Hook.sourceCloses, hguard.2] at hclosed
        exact hclosed.congr rfl rfl rfl rfl
      . rw [List.append_nil]
        exact h.congr rfl rfl rfl rfl

theorem Watched.sourceError {i : Nat} {source : EventSource} {fatal : Bool}
    (h : Watched hook closed) (hi : hook.sources[i]? = some source) :
    Watched (hook.sourceError i source fatal)
      (closed ++ hook.sourceErrorCloses i source fatal) := by
  unfold Hook.sourceError Hook.sourceErrorCloses
  split
  . simpa using h
  . next hguard =>
    simp only [not_or, not_not] at hguard
    dsimp only
    split
    . rw [List.append_nil]
      have hset : Watched (hook.setSource i
          { source with consecutiveErrors := source.consecutiveErrors + 1 }) closed :=
        h.setSource hi rfl
      exact hset.congr rfl rfl rfl rfl
    . have hset : Watched (hook.setSource i
          { source with consecutiveErrors := source.consecutiveErrors + 1, recovering := true })
          closed :=
        h.setSource hi rfl
      have hclosed := hset.closeSource
      have hcloses : hook.source.toList = [i] := by
        rw [hguard.2.2]
        rfl
      simp only [Hook.sourceCloses, Hook.setSource, hcloses] at hclosed
      exact hclosed.congr rfl rfl rfl rfl

theorem Watched.step {browser browser' : Browser} {label : HookLabel}
    (h : Watched browser.hook browser.closed) (hstep : browser.step label = some browser') :
    Watched browser'.hook browser'.closed := by
  cases label with
  | mount =>
    simp only [Browser.step, Option.ite_none_left_eq_some, Option.some.injEq] at hstep
    obtain ⟨hmounted, rfl⟩ := hstep
    exact h.mount (Bool.eq_false_iff.mpr hmounted)
  | unmount =>
    cases hstep
    exact h.unmount
  | createRun =>
    cases hstep
    exact h.restart.congr rfl rfl rfl rfl
  | selectRun runId =>
    cases hstep
    exact h.selectRun
  | runControl control =>
    cases hstep
    simpa [Hook.closes] using h.runControl
  | retryConnection =>
    cases hstep
    exact h.retryConnection
  | newRun =>
    cases hstep
    exact h.restart.congr rfl rfl rfl rfl
  | selectVersion version =>
    cases hstep
    simp only [Hook.closes, List.append_nil]
    exact h.congr rfl rfl rfl rfl
  | clearError =>
    cases hstep
    simp only [Hook.closes, List.append_nil]
    exact h.congr rfl rfl rfl rfl
  | reply i reply =>
    simp only [Browser.step, Hook.step, Option.map_eq_some_iff] at hstep
    obtain ⟨hook', hreply, rfl⟩ := hstep
    exact h.reply hreply
  | sourceOpen i =>
    simp only [Browser.step, Hook.step, Option.map_eq_some_iff] at hstep
    obtain ⟨hook', ⟨source, hi, rfl⟩, rfl⟩ := hstep
    simp only [Hook.closes, hi, Option.elim_some]
    exact h.sourceOpen hi
  | sourceMessage i data =>
    simp only [Browser.step, Hook.step, Option.map_eq_some_iff] at hstep
    obtain ⟨hook', ⟨source, hi, rfl⟩, rfl⟩ := hstep
    simp only [Hook.closes, hi, Option.elim_some]
    exact h.sourceMessage
  | sourceError i closed =>
    simp only [Browser.step, Hook.step, Option.map_eq_some_iff] at hstep
    obtain ⟨hook', ⟨source, hi, rfl⟩, rfl⟩ := hstep
    simp only [Hook.closes, hi, Option.elim_some]
    exact h.sourceError hi

theorem Watched.init (url : Option RunId) : Watched (Hook.init url) [] := by
  constructor <;> simp [Hook.init]

theorem Watched.reaches {url : Option RunId} {browser : Browser}
    (hrun : Reaches Browser.step (Browser.init url) browser) :
    Watched browser.hook browser.closed :=
  hrun.invariant (I := fun browser => Watched browser.hook browser.closed) (Watched.init url)
    fun _ _ _ h _ hstep => h.step hstep

-- A source that is closed, or was never opened, is not in `sourceRef`.
theorem Watched.source_ne {browser : Browser} {i : Nat}
    (h : Watched browser.hook browser.closed) (hopen : ¬browser.Open i) :
    browser.hook.source ≠ some i := by
  intro heq
  obtain ⟨hnot, source, hget, _⟩ := h.current i heq
  exact hopen ⟨(List.getElem?_eq_some_iff.mp hget).1, hnot⟩

end Watched

namespace Browser

/--
In every state of every run, at most one source is open: the one in `sourceRef`, of the current
session. Nothing is dispatched for a message of any other source.
-/
theorem single_open_source {url : Option RunId} {browser : Browser}
    (hrun : Reaches step (init url) browser) :
    (∀ i j, browser.Open i → browser.Open j → i = j)
      ∧
    (
      ∀ i, browser.Open i →
        browser.hook.source = some i
          ∧
        ∃ source, browser.hook.sources[i]? = some source ∧ source.session = browser.hook.session
    )
      ∧
    ∀ (i : Nat) source data, browser.hook.sources[i]? = some source → ¬browser.Open i →
      browser.hook.messageActions i source data = []
        ∧ browser.step (.sourceMessage i data) = some browser := by
  have hwatched := Watched.reaches hrun
  refine ⟨?_, ?_, ?_⟩
  . intro i j hi hj
    have hsource := hwatched.held i hi.1 hi.2
    rw [hwatched.held j hj.1 hj.2, Option.some.injEq] at hsource
    exact hsource.symm
  . intro i hi
    have hsource := hwatched.held i hi.1 hi.2
    exact ⟨hsource, (hwatched.current i hsource).2⟩
  . intro i source data hi hopen
    have hsource := hwatched.source_ne hopen
    constructor
    . simp [Hook.messageActions, hsource]
    . simp [step, Hook.step, hi, Hook.sourceMessage, Hook.closes, Hook.sourceMessageCloses, hsource]

-- The first source has failed, and a second one has taken its place.
def replacedLabels : List HookLabel :=
  [
    .mount,
    .reply 0 (.snapshot (.ok (freshSnapshot "a" .reviewing 9))),
    .sourceError 0 true,
    .reply 0 (.snapshot (.ok (freshSnapshot "a" .reviewing 9)))
  ]

def replaced : Browser :=
  (exec step (init (some "a")) replacedLabels).getD (init none)

theorem single_open_source_replaced :
    replaced.hook.source = some 1
      ∧ ∀ data, replaced.step (.sourceMessage 0 data) = some replaced := by
  have hsome : (exec step (init (some "a")) replacedLabels).isSome := by
    decide +kernel
  have hexec : exec step (init (some "a")) replacedLabels = some replaced := by
    unfold replaced
    obtain ⟨browser, hbrowser⟩ := Option.isSome_iff_exists.mp hsome
    rw [hbrowser]
    rfl
  have hresult := single_open_source (Reaches.of_exec hexec)
  constructor
  . apply (hresult.2.1 1 _).1
    decide +kernel
  . intro data
    obtain ⟨source, hsource⟩ : ∃ source, replaced.hook.sources[0]? = some source := by
      apply Option.isSome_iff_exists.mp
      decide +kernel
    apply (hresult.2.2 0 source data hsource _).2
    decide +kernel

end Browser

end Client

end AgenticPrd
