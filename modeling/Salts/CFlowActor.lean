import Salts.CFlowMailbox
import Salts.CFlowStep
import Salts.ThreadPool

/-!
The actor shell (`actor.c`): its gate, the callers of start, request_stop, wait, send and destroy,
and the terminal delivery of its run.  A move is one region under the gate or one call out of it.

The embedded instance stands behind `runtime_ops`: whatever its mailbox answers is a choice of the
world.  The run stands behind `cflow_subscription`: it ends at most once, tells the sink at that
end, refuses demand from then on, and its close waits for the telling.
-/

namespace Salts.CFlow

inductive ActorState where
  | start
  | running
  | stopping
  | stopped
  | failed
  deriving DecidableEq

namespace ActorState

def rank : ActorState → Nat
  | .start => 0
  | .running => 1
  | .stopping => 2
  | .stopped => 3
  | .failed => 3

def ended : ActorState → Bool
  | .stopped => true
  | .failed => true
  | _ => false

def stops : ActorState → Bool
  | .start => false
  | .running => false
  | _ => true

end ActorState

inductive ActorStatus where
  | ok
  | alreadyStarted
  | stopping
  | stopped
  | failed
  deriving DecidableEq

/-- `cflow_actor_send_status`. -/
inductive ActorSend where
  | accepted
  | invalidArgument
  | typeMismatch
  | full
  | notStarted
  | stopping
  | stopped
  | failed
  | stale
  deriving DecidableEq

/-- `cflow_actor_runtime_kind` with the entries of its `cflow_actor_runtime_ops` that are data. -/
inductive ActorRuntime where
  | machine
  | statechart
  deriving DecidableEq

namespace ActorRuntime

def attachError : ActorRuntime → String
  | .machine => "actor could not attach Machine source"
  | .statechart => "actor could not attach Statechart terminal source"

def naturalDoneIsSuccess : ActorRuntime → Bool
  | .machine => false
  | .statechart => true

end ActorRuntime

inductive RunEnd where
  | done
  | error (message : Option String)
  | cancelled
  deriving DecidableEq

/-- What the actor sees of its run: `ended` has its end recorded and has not come back from telling
the sink, `over` has nothing more to tell. -/
inductive RunPhase where
  | unopened
  | live
  | ended (e : RunEnd)
  | over (e : RunEnd)
  | closed
  deriving DecidableEq

namespace RunPhase

def takesDemand : RunPhase → Bool
  | .live => true
  | _ => false

/-- `completed_after_admission` of `schedule_pump`. -/
def completed : RunPhase → Bool
  | .ended .done => true
  | .over .done => true
  | _ => false

def telling : RunPhase → Bool
  | .ended _ => true
  | _ => false

def close : RunPhase → RunPhase
  | .unopened => .unopened
  | _ => .closed

end RunPhase

inductive TerminalCall where
  | done
  | error (message : Option String)
  deriving DecidableEq

def actorGenericFailure : String := "actor failed"

def actorUnexpectedDone : String := "Run completed while Actor was RUNNING"

def actorCopyError (message : Option String) : String :=
  match message with
  | none => actorGenericFailure
  | some "" => actorGenericFailure
  | some m => m

/-- `cflow_actor_impl`.  `onError` and `onDone` say which callbacks the user gave, the three
`runtime` flags which calls the embedded instance has had, and `calls` records the terminal
callbacks. -/
structure ActorImpl where
  runtime : ActorRuntime
  onError : Bool
  onDone : Bool
  state : ActorState := .start
  terminalSettled : Bool := false
  stale : Bool := false
  starting : Bool := false
  pendingWakes : Nat := 0
  run : RunPhase := .unopened
  error : Option String := none
  rejectedNotStarted : Nat := 0
  rejectedStopping : Nat := 0
  rejectedStopped : Nat := 0
  rejectedFailed : Nat := 0
  rejectedStale : Nat := 0
  runtimeClosed : Bool := false
  runtimeCancelled : Bool := false
  runtimeDestroyed : Bool := false
  calls : List TerminalCall := []

/-- Who called `actor_mark_failed`: a start without a run, a start whose demand was refused
(`requested`), or the sink, which defers the settlement behind its callback. -/
inductive FailCaller where
  | start (requested : Bool)
  | sink (message : Option String)
  deriving DecidableEq

/-- Where a thread stands.  `settle` is the local of that name in the two sink functions. -/
inductive ActorPoint where
  -- `cflow_actor_start`
  | start
  | startAttach
  | startSubscribe
  | startOpened
  | startRequest
  | startPump
  | startRefused
  | startClose (status : ActorStatus)
  | startSettle (status : ActorStatus)
  | startReturned (status : ActorStatus)
  -- `actor_mark_failed`
  | markFailed (message : Option String) (k : FailCaller)
  | cancelFailed (k : FailCaller)
  | settleFailed (requested : Bool)
  -- `cflow_actor_request_stop` and `cflow_actor_wait`
  | stop
  | stopClose
  | stopReturned (status : ActorStatus)
  | wait
  | waitReturned (state : ActorState)
  -- `cflow_actor_ref_try_send`
  | send (valid : Bool)
  | sendWake (result : ActorSend)
  | sendWoken (result : ActorSend)
  | sent (result : ActorSend)
  -- the run, `actor_sink_error` and `actor_sink_done`
  | pump
  | sinkDone
  | sinkDecide (running : Bool)
  | cancelDone (message : Option String)
  | onError (message : Option String) (settle : Bool)
  | inError (settle : Bool)
  | onDone
  | inDone
  | sinkSettle (settle : Bool)
  | sinkReturn
  | runReturned
  -- `cflow_actor_destroy`
  | destroy
  | destroyWait
  | destroyClose
  | destroyCloseRun
  | destroyRuntime
  | destroySettle
  | destroyed
  deriving DecidableEq

/-- What the world decides at a move: `refuse` is false from a call or null from an allocation,
`ends` is the end of the run, `answer` what the instance's mailbox returns. -/
inductive ActorChoice where
  | go
  | refuse
  | ends (e : RunEnd)
  | answer (status : MailboxStatus) (wake : Bool)
  deriving DecidableEq

namespace ActorPoint

def entry : ActorPoint → Bool
  | .start => true
  | .stop => true
  | .wait => true
  | .send _ => true
  | .destroy => true
  | _ => false

/-- Behind `actor_mark_failed`. -/
def afterFailed (first : Bool) : FailCaller → ActorPoint
  | .start false => .startReturned .failed
  | .start true => .startClose .failed
  | .sink message => .onError message first

end ActorPoint

namespace ActorImpl

def stateStatus : ActorState → ActorStatus
  | .running => .alreadyStarted
  | .stopping => .stopping
  | .stopped => .stopped
  | .failed => .failed
  | .start => .ok

/-- The region of `actor_mark_failed`; `copied` is false when `actor_copy_error` gave nothing. -/
def markFailed (r : ActorImpl) (message : Option String) (copied : Bool) : ActorImpl :=
  { r with
    starting := false
    terminalSettled := r.terminalSettled && r.state.ended
    state := if r.state.ended then r.state else .failed
    error := if r.error.isNone && copied then some (actorCopyError message) else r.error }

def settle (r : ActorImpl) : ActorImpl := { r with terminalSettled := true }

def stopped (r : ActorImpl) : ActorImpl := { r with terminalSettled := false, state := .stopped }

/-- The end of `actor_sink_done` on a running actor that may not complete by itself. -/
def unexpected (r : ActorImpl) (copied : Bool) : ActorImpl :=
  { r with
    error := if r.error.isNone && copied then some (actorCopyError (some actorUnexpectedDone))
      else r.error
    terminalSettled := false
    state := .failed }

def sendResult : MailboxStatus → ActorSend
  | .ok => .accepted
  | .typeMismatch => .typeMismatch
  | .full => .full
  | .closed => .failed
  | .cancelled => .failed
  | _ => .invalidArgument

def turnsAway (r : ActorImpl) (valid : Bool) : Option (ActorImpl × ActorSend) :=
  if r.stale then some ({ r with rejectedStale := r.rejectedStale + 1 }, .stale)
  else if !valid then some (r, .invalidArgument)
  else if r.state = .start ∨ r.starting then
    some ({ r with rejectedNotStarted := r.rejectedNotStarted + 1 }, .notStarted)
  else match r.state with
    | .stopping => some ({ r with rejectedStopping := r.rejectedStopping + 1 }, .stopping)
    | .stopped => some ({ r with rejectedStopped := r.rejectedStopped + 1 }, .stopped)
    | .failed => some ({ r with rejectedFailed := r.rejectedFailed + 1 }, .failed)
    | _ => if r.pendingWakes = sizeMax then some (r, .full) else none

def admitEvent (r : ActorImpl) (status : MailboxStatus) (wake : Bool) : ActorImpl :=
  { r with
    pendingWakes := if wake then r.pendingWakes + 1 else r.pendingWakes
    rejectedFailed := if sendResult status = .failed then r.rejectedFailed + 1
      else r.rejectedFailed }

/-- The first region of `cflow_actor_destroy`. -/
def makeStale (r : ActorImpl) : ActorImpl :=
  { r with
    stale := true
    state := match r.state with
      | .start => .stopped
      | .running => .stopping
      | state => state }

/-- The last region of `cflow_actor_destroy`. -/
def destroyed (r : ActorImpl) : ActorImpl :=
  { r with
    state := if r.state = .failed then .failed else .stopped
    terminalSettled := true }

abbrev Move := ActorImpl × ActorPoint × List ActorPoint

/-- `cflow_actor_start`. -/
def moveStart (r : ActorImpl) : ActorPoint → ActorChoice → Option Move
  | .start, .go =>
    if r.state = .start then
      some ({ r with starting := true, state := .running }, .startAttach, [])
    else some (r, .startReturned (stateStatus r.state), [])
  | .startAttach, .go => some (r, .startSubscribe, [])
  | .startAttach, .refuse => some (r, .markFailed (some r.runtime.attachError) (.start false), [])
  | .startSubscribe, .go => some ({ r with run := .live }, .startOpened, [.pump])
  | .startSubscribe, .refuse =>
    some (r, .markFailed (some "actor could not open Run") (.start false), [])
  | .startOpened, .go => some ({ r with starting := false }, .startRequest, [])
  | .startRequest, .go =>
    some (r, if r.run.takesDemand then .startPump else .startRefused, [])
  | .startPump, .go =>
    some (r, if r.run.takesDemand || r.run.completed then .startReturned .ok else .startRefused, [])
  | .startPump, .refuse =>
    some (r, if r.run.completed then .startReturned .ok else .startRefused, [])
  | .startRefused, .go =>
    some (r, if r.state = .stopped then .startClose .ok
      else .markFailed (some "actor could not request Run demand") (.start true), [])
  | .startClose status, .go =>
    if r.run.telling then none else some ({ r with run := r.run.close }, .startSettle status, [])
  | .startSettle status, .go => some (r.settle, .startReturned status, [])
  | _, _ => none

/-- `actor_mark_failed`. -/
def moveFail (r : ActorImpl) : ActorPoint → ActorChoice → Option Move
  | .markFailed message k, c =>
    let next := if r.state.ended then .afterFailed false k else .cancelFailed k
    match c with
    | .go => some (r.markFailed message true, next, [])
    | .refuse => some (r.markFailed message false, next, [])
    | _ => none
  | .cancelFailed k, .go =>
    some ({ r with runtimeCancelled := true },
      match k with
      | .start requested => .settleFailed requested
      | .sink message => .onError message true, [])
  | .settleFailed requested, .go => some (r.settle, .afterFailed true (.start requested), [])
  | _, _ => none

/-- `cflow_actor_request_stop`, `cflow_actor_wait` and `cflow_actor_ref_try_send`. -/
def moveCaller (r : ActorImpl) : ActorPoint → ActorChoice → Option Move
  | .stop, .go =>
    match r.state with
    | .start => some ({ r with state := .stopped, terminalSettled := true }, .stopClose, [])
    | .running => some ({ r with state := .stopping }, .stopClose, [])
    | state => some (r, .stopReturned (stateStatus state), [])
  | .stopClose, .go => some ({ r with runtimeClosed := true }, .stopReturned .ok, [])
  | .wait, .go =>
    if r.state.ended && r.terminalSettled then some (r, .waitReturned r.state, []) else none
  | .send valid, .answer status wake =>
    match r.turnsAway valid with
    | some (t, result) => some (t, .sent result, [])
    | none =>
      some (r.admitEvent status wake,
        if wake then .sendWake (sendResult status) else .sent (sendResult status), [])
  | .sendWake result, .go => some (r, .sendWoken result, [])
  | .sendWoken result, .go =>
    some ({ r with pendingWakes := r.pendingWakes - 1 }, .sent result, [])
  | _, _ => none

def moveSink (r : ActorImpl) : ActorPoint → ActorChoice → Option Move
  | .pump, .ends e =>
    if r.run = .live then
      match e with
      | .done => some ({ r with run := .ended .done }, .sinkDone, [])
      | .error m => some ({ r with run := .ended (.error m) }, .markFailed m (.sink m), [])
      | .cancelled => some ({ r with run := .over .cancelled }, .runReturned, [])
    else none
  | .sinkDone, .go => some (r, .sinkDecide (r.state = .running), [])
  | .sinkDecide running, c =>
    if r.state = .stopping ∨ (r.state = .running ∧ r.runtime.naturalDoneIsSuccess) then
      some (r.stopped, if r.onDone then .onDone else .sinkSettle true, [])
    else if r.state = .running then
      -- the copy is made before this region, from the state seen in the first one
      let t := r.unexpected (running && c != .refuse)
      some (t, .cancelDone (some (t.error.getD actorGenericFailure)), [])
    else some (r, .sinkSettle false, [])
  | .cancelDone message, .go =>
    some ({ r with runtimeCancelled := true }, .onError message true, [])
  | .onError message settle, .go =>
    if r.onError then some ({ r with calls := r.calls ++ [.error message] }, .inError settle, [])
    else some (r, .sinkSettle settle, [])
  | .inError settle, .go => some (r, .sinkSettle settle, [])
  | .onDone, .go => some ({ r with calls := r.calls ++ [.done] }, .inDone, [])
  | .inDone, .go => some (r, .sinkSettle true, [])
  | .sinkSettle settle, .go => some (if settle then r.settle else r, .sinkReturn, [])
  | .sinkReturn, .go =>
    match r.run with
    | .ended e => some ({ r with run := .over e }, .runReturned, [])
    | _ => none
  | _, _ => none

/-- `cflow_actor_destroy`. -/
def moveDestroy (r : ActorImpl) : ActorPoint → ActorChoice → Option Move
  | .destroy, .go => some (r.makeStale, .destroyWait, [])
  | .destroyWait, .go => if r.pendingWakes = 0 then some (r, .destroyClose, []) else none
  | .destroyClose, .go => some ({ r with runtimeClosed := true }, .destroyCloseRun, [])
  | .destroyCloseRun, .go =>
    if r.run.telling then none else some ({ r with run := r.run.close }, .destroyRuntime, [])
  | .destroyRuntime, .go => some ({ r with runtimeDestroyed := true }, .destroySettle, [])
  | .destroySettle, .go => some (r.destroyed, .destroyed, [])
  | _, _ => none

def move (r : ActorImpl) (p : ActorPoint) (c : ActorChoice) : Option Move :=
  (r.moveStart p c).or ((r.moveFail p c).or ((r.moveCaller p c).or
    ((r.moveSink p c).or (r.moveDestroy p c))))

end ActorImpl

end Salts.CFlow
