import AgenticPrd.Client.RunReducer
import AgenticPrd.Lib.Transition

/-!
The hook `useAgentRun` as a transition system. A label is a call that the user interface makes, or
the continuation of an asynchronous call: the answer to a request, or what an event source does.
Every call reads the state that was dispatched last.
-/

namespace AgenticPrd

namespace Client

-- What a request to the backend rejects with.
inductive Failure where
  | apiClientError (code : String)
  | other

def messageFromError : Failure → String
  | .apiClientError code => localizedErrorMessage (some code)
  | .other => "客户端发生了意外错误，请重试。"

-- A source is named by its place in the list of the sources that were opened.
structure EventSource where
  runId : RunId
  afterSequence : ℚ
  session : Nat
  consecutiveErrors : Nat
  recovering : Bool

-- A request in flight, with what its continuation has captured.
inductive Request where
  | createRun (session : Nat)
  | hydrate (runId : RunId) (session : Nat)
  | recover (runId : RunId) (session : Nat)
  | control (runId : RunId)
  deriving DecidableEq

-- `hydrate` and `recover` both wait for `getRun`.
inductive Reply where
  | created (result : Except Failure RunId)
  | snapshot (result : Except Failure RunSnapshot)
  | controlled (result : Except Failure RunStatus)

def controlActions : Except Failure RunStatus → List RunAction
  | .ok status => [.statusUpdated status, .controlFinished]
  | .error failure => [.error (messageFromError failure), .controlFinished]

structure Hook where
  state : RunViewState
  session : Nat
  mounted : Bool
  sources : List EventSource
  source : Option Nat
  requests : List Request
  url : Option RunId

inductive HookLabel where
  | mount
  | unmount
  | createRun
  | selectRun (runId : RunId)
  | runControl (control : Control)
  | retryConnection
  | newRun
  | selectVersion (version : ℚ)
  | clearError
  | reply (i : Nat) (reply : Reply)
  | sourceOpen (i : Nat)
  | sourceMessage (i : Nat) (data : Option Json)
  | sourceError (i : Nat) (closed : Bool)

namespace Hook

def init (url : Option RunId) : Hook :=
  {
    state := initialRunViewState
    session := 0
    mounted := false
    sources := []
    source := none
    requests := []
    url
  }

def dispatch (hook : Hook) (actions : List RunAction) : Hook :=
  { hook with state := actions.foldl runReducer hook.state }

def closeSource (hook : Hook) : Hook :=
  { hook with source := none }

def nextSession (hook : Hook) : Hook :=
  { hook with session := hook.session + 1 }

def request (hook : Hook) (request : Request) : Hook :=
  { hook with requests := hook.requests ++ [request] }

def settle (hook : Hook) (i : Nat) : Hook :=
  { hook with requests := hook.requests.eraseIdx i }

def setSource (hook : Hook) (i : Nat) (source : EventSource) : Hook :=
  { hook with sources := hook.sources.set i source }

-- The guard of every continuation but that of `runControl`.
def isCurrent (hook : Hook) (session : Nat) : Bool :=
  hook.mounted && session == hook.session

def connect (hook : Hook) (runId : RunId) (afterSequence : ℚ) (session : Nat) : Hook :=
  if hook.isCurrent session then
    let hook := hook.closeSource.dispatch [.connectionChanged .connecting]
    let source := { runId, afterSequence, session, consecutiveErrors := 0, recovering := false }
    {
      hook with
      sources := hook.sources ++ [source]
      source := some hook.sources.length
    }
  else
    hook

section Calls

def mount (hook : Hook) : Hook :=
  let hook := { hook with mounted := true }
  match (hook.url.map trim).filter fun runId => runId ≠ "" with
  | some runId =>
    let hook := hook.nextSession
    (hook.dispatch [.runSelected runId]).request (.hydrate runId hook.session)
  | none => hook

def unmount (hook : Hook) : Hook :=
  { hook.nextSession.closeSource with mounted := false }

def createRun (hook : Hook) : Hook :=
  let hook := hook.nextSession
  (hook.closeSource.dispatch [.createStarted]).request (.createRun hook.session)

def selectRun (hook : Hook) (runId : RunId) : Hook :=
  if runId = "" ∨ some runId = hook.state.runId then
    hook
  else
    let hook := hook.nextSession
    let hook := { hook.closeSource with url := some runId }
    (hook.dispatch [.runSelected runId]).request (.hydrate runId hook.session)

def runControl (hook : Hook) (control : Control) : Hook :=
  match hook.state.runId.filter fun runId => runId ≠ "", hook.state.pendingControl with
  | some runId, none => (hook.dispatch [.controlStarted control]).request (.control runId)
  | _, _ => hook

def retryConnection (hook : Hook) : Hook :=
  match hook.state.runId.filter fun runId => runId ≠ "" with
  | some runId =>
    let hook := hook.nextSession
    (hook.closeSource.dispatch [.clearError, .connectionChanged .recovering]).request
      (.hydrate runId hook.session)
  | none => hook

def newRun (hook : Hook) : Hook :=
  { hook.nextSession.closeSource with url := none }.dispatch [.reset]

end Calls

section Continuations

-- `getRun` has answered with a snapshot.
def loaded (hook : Hook) (runId : RunId) (session : Nat) (snapshot : RunSnapshot) : Hook :=
  let hook := hook.dispatch [.snapshotLoaded snapshot]
  if snapshot.status.isTerminal then
    hook.dispatch [.connectionChanged .closed]
  else
    hook.connect runId snapshot.latestEventSequence session

def hydrated (hook : Hook) (runId : RunId) (session : Nat) : Except Failure RunSnapshot → Hook
  | .ok snapshot =>
    if hook.isCurrent session then
      hook.loaded runId session snapshot
    else
      hook
  | .error failure =>
    if hook.isCurrent session then
      { hook.closeSource with url := none }.dispatch
        [.reset, .error ("无法恢复该任务。" ++ messageFromError failure)]
    else
      hook

def recovered (hook : Hook) (runId : RunId) (session : Nat) : Except Failure RunSnapshot → Hook
  | .ok snapshot =>
    if hook.isCurrent session then
      hook.loaded runId session snapshot
    else
      hook
  | .error failure =>
    if hook.isCurrent session then
      hook.dispatch [.error (messageFromError failure), .connectionChanged .closed]
    else
      hook

def created (hook : Hook) (session : Nat) : Except Failure RunId → Hook
  | .ok runId =>
    if hook.isCurrent session then
      ({ hook with url := some runId }.dispatch [.runSelected runId]).request
        (.hydrate runId session)
    else
      hook
  | .error failure =>
    if hook.isCurrent session then
      { hook with url := none }.dispatch [.error (messageFromError failure)]
    else
      hook

-- No guard stands here.
def controlled (hook : Hook) (result : Except Failure RunStatus) : Hook :=
  hook.dispatch (controlActions result)

-- The backend answers for the run that it was asked for.
def answer (hook : Hook) : Request → Reply → Option Hook
  | .createRun session, .created result => some (hook.created session result)
  | .hydrate runId session, .snapshot result =>
    match result with
    | .ok snapshot => if snapshot.runId = runId then hook.hydrated runId session result else none
    | .error _ => some (hook.hydrated runId session result)
  | .recover runId session, .snapshot result =>
    match result with
    | .ok snapshot => if snapshot.runId = runId then hook.recovered runId session result else none
    | .error _ => some (hook.recovered runId session result)
  | .control _, .controlled result => some (hook.controlled result)
  | _, _ => none

def reply (hook : Hook) (i : Nat) (reply : Reply) : Option Hook :=
  match hook.requests[i]? with
  | some request => (hook.settle i).answer request reply
  | none => none

end Continuations

section Sources

-- `onopen` does not ask whether the source has been replaced.
def sourceOpen (hook : Hook) (i : Nat) (source : EventSource) : Hook :=
  if source.session ≠ hook.session then
    hook
  else
    (hook.setSource i { source with consecutiveErrors := 0 }).dispatch [.connectionChanged .open]

-- `run_completed`, `max_iterations_reached`, `run_cancelled` and `run_failed` end the stream.
def endsStream : RunEventType → Bool
  | .runCompleted => true
  | .maxIterationsReached => true
  | .runCancelled => true
  | .runFailed => true
  | _ => false

-- `data` is what `JSON.parse` makes of the message.
def sourceMessage (hook : Hook) (i : Nat) (source : EventSource) (data : Option Json) : Hook :=
  if source.session ≠ hook.session ∨ hook.source ≠ some i then
    hook
  else
    match data.bind parseRunEvent with
    | none => hook.dispatch [.error "收到的实时事件格式无效，已停止处理该事件。"]
    | some event =>
      let hook := hook.dispatch [.eventReceived event]
      if endsStream event.event then
        hook.closeSource.dispatch [.connectionChanged .closed]
      else
        hook

-- `MAX_NATIVE_RETRIES`
def maxNativeRetries : Nat :=
  3

def sourceError (hook : Hook) (i : Nat) (source : EventSource) (closed : Bool) : Hook :=
  if source.session ≠ hook.session ∨ source.recovering ∨ hook.source ≠ some i then
    hook
  else
    let consecutiveErrors := source.consecutiveErrors + 1
    if !closed ∧ consecutiveErrors < maxNativeRetries then
      (hook.setSource i { source with consecutiveErrors }).dispatch [.connectionChanged .connecting]
    else
      let hook := hook.setSource i { source with consecutiveErrors, recovering := true }
      (hook.closeSource.dispatch [.connectionChanged .recovering]).request
        (.recover source.runId source.session)

end Sources

def step (hook : Hook) : HookLabel → Option Hook
  | .mount => some hook.mount
  | .unmount => some hook.unmount
  | .createRun => some hook.createRun
  | .selectRun runId => some (hook.selectRun runId)
  | .runControl control => some (hook.runControl control)
  | .retryConnection => some hook.retryConnection
  | .newRun => some hook.newRun
  | .selectVersion version => some (hook.dispatch [.versionSelected version])
  | .clearError => some (hook.dispatch [.clearError])
  | .reply i reply => hook.reply i reply
  | .sourceOpen i => hook.sources[i]?.map (hook.sourceOpen i)
  | .sourceMessage i data => hook.sources[i]?.map fun source => hook.sourceMessage i source data
  | .sourceError i closed => hook.sources[i]?.map fun source => hook.sourceError i source closed

end Hook

end Client

end AgenticPrd
