import AgenticPrd.Backend.Workflow.Run
import AgenticPrd.Client.UseAgentRun
import AgenticPrd.Live.Wire

/-!
A run and a client that watches it. Of the event sources of the client only the current one
matters, as the guards of `useAgentRun` drop what the others deliver. A source that is lost either
reconnects on its own with the id of the last event it has received, or is closed for good, and the
client then goes on from a fresh snapshot.
-/

namespace AgenticPrd

namespace Live

open Client (RunViewState RunAction runReducer)

/--
The event source of the client. `sent` is on its way: replayed by the server, not yet received.
-/
inductive Source where
  | closed
  | connecting
  | streaming (sent : List RunEvent)

/--
`cursor` is what the source reconnects with: the id of the last event it has received, at first
the sequence in its URL. `answer` is the snapshot that `getRun` is about to resolve with.
-/
structure Link where
  server : Workflow.Config
  view : RunViewState
  source : Source
  cursor : Nat
  answer : Option RunSnapshot

inductive LinkLabel where
  | serve (label : Workflow.Label)
  | connect
  | send
  | receive
  | disconnect
  | recover
  | fetch
  | load
  | dispatch (action : RunAction)

-- The actions that no event source and no snapshot is behind.
def isLocal : RunAction → Bool
  | .connectionChanged _ => true
  | .controlStarted _ => true
  | .controlFinished => true
  | .statusUpdated _ => true
  | .versionSelected _ => true
  | .error _ => true
  | .clearError => true
  | _ => false

namespace Link

variable (isoformat : Timestamp → String)

-- RUN_SELECTED has been dispatched, and `hydrate` is about to ask for the run.
def init (env : Env) (runId : RunId) (request : CreateRunRequest) (outputLanguage : String)
    (bufferSize : Nat) : Link :=
  {
    server := Workflow.init env runId request outputLanguage bufferSize
    view := runReducer Client.initialRunViewState (.runSelected runId)
    source := .closed
    cursor := 0
    answer := none
  }

def log (link : Link) : List RunEvent :=
  RunManager.events link.server.world.journal

def run (link : Link) (actions : List RunAction) : Link :=
  { link with view := actions.foldl runReducer link.view }

def connect (link : Link) : Option Link :=
  match link.source with
  | .connecting => some { link.run [.connectionChanged .open] with source := .streaming [] }
  | _ => none

-- Where the subscription of the source stands: behind the last event that it has yielded.
def yielded (link : Link) (sent : List RunEvent) : Nat :=
  (sent.getLast?.map RunEvent.sequence).getD link.cursor

-- One pass of the loop of `subscribe`.
def send (link : Link) : Option Link :=
  match link.source with
  | .streaming sent =>
    match link.server.world.eventStore.replay (link.yielded sent) with
    | .ok replayed => some { link with source := .streaming (sent ++ replayed) }
    | .error _ => none
  | _ => none

-- What the listener of the event source dispatches.
def received (e : RunEvent) : List RunAction :=
  match Client.parseRunEvent (e.toJson isoformat) with
  | none => [.error "收到的实时事件格式无效，已停止处理该事件。"]
  | some event =>
    if Client.Hook.endsStream event.event then
      [.eventReceived event, .connectionChanged .closed]
    else
      [.eventReceived event]

def receive (link : Link) : Option Link :=
  match link.source with
  | .streaming (e :: sent) =>
    some {
      link.run (received isoformat e) with
      source := if Client.Hook.endsStream e.event then .closed else .streaming sent
      cursor := e.sequence
    }
  | _ => none

-- What was on its way is lost. The browser tries again.
def disconnect (link : Link) : Option Link :=
  match link.source with
  | .streaming _ =>
    some { link.run [.connectionChanged .connecting] with source := .connecting }
  | _ => none

-- `onerror` gives the source up, or the user asks for a new connection.
def recover (link : Link) : Link :=
  {
    link.run [.connectionChanged .recovering] with
    source := .closed
    answer := none
  }

def fetch (link : Link) : Option Link :=
  match link.source with
  | .closed => some { link with answer := some link.server.world.snapshot }
  | _ => none

-- `getRun` resolves, in `hydrate` or in `onerror`.
def load (link : Link) : Option Link :=
  match link.source, link.answer with
  | .closed, some snapshot =>
    let connection := if snapshot.status.isTerminal then .closed else .connecting
    some {
      link.run [.snapshotLoaded snapshot.wire, .connectionChanged connection] with
      source := if snapshot.status.isTerminal then .closed else .connecting
      cursor := snapshot.latestEventSequence
      answer := none
    }
  | _, _ => none

def step (env : WorkflowEnv) (link : Link) : LinkLabel → Option Link
  | .serve label => (Workflow.step env link.server label).map fun server => { link with server }
  | .connect => link.connect
  | .send => link.send
  | .receive => link.receive isoformat
  | .disconnect => link.disconnect
  | .recover => some link.recover
  | .fetch => link.fetch
  | .load => link.load
  | .dispatch action => if isLocal action then some (link.run [action]) else none

end Link

end Live

end AgenticPrd
