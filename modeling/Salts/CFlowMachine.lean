import Salts.CFlowMailbox
import Salts.CFlowRunState

/-!
The immutable rows of a machine (`machine.h`), the bindings of its guards and actions, and what an
instance does with them for one event: `select_transition` and `run_action` of
`machine_instance.c`.  State values, payloads and observations are the bytes of one type.  Guards
are pure and actions deterministic, as `cflow_machine_build` requires of their contracts.
-/

namespace Salts.CFlow

inductive MachineStateKind where
  | active
  | done
  | error
  deriving DecidableEq

structure MachineState where
  id : Nat
  kind : MachineStateKind
  deriving DecidableEq

inductive ActionObservation where
  | none
  | value
  | event
  deriving DecidableEq

structure MachineActionRow where
  id : Nat
  mayFail : Bool
  observation : ActionObservation
  outputType : Nat
  outputEventId : Nat
  deriving DecidableEq

structure MachineTransition where
  source : Nat
  event : Nat
  guard : Nat
  action : Nat
  target : Nat
  deriving DecidableEq

/-- `cflow_machine`: what `cflow_machine_build` publishes.  An action that emits an event emits one
of the machine's own, with its payload type (`validate_action_observation`). -/
structure MachineRows where
  states : List MachineState
  initial : MachineState
  events : List EventType
  actions : List MachineActionRow
  transitions : List MachineTransition
  emitted : ∀ a ∈ actions, a.observation = .event →
    (Mailbox.eventType events a.outputEventId).any (fun row => row.payloadType = a.outputType) = true

/-- What a guard returns: its result, what it stored in `out_enabled` and in `out_error`. -/
structure GuardResult where
  ok : Bool
  enabled : Bool := false
  error : Option String := none

/-- What an action returns: its result, the target state, the observation and `out_error`. -/
structure ActionResult (V : Type) where
  ok : Bool
  target : V
  observation : V
  error : Option String := none

structure GuardBinding (V : Type) where
  id : Nat
  fn : (state event : V) → GuardResult

structure ActionBinding (V : Type) where
  id : Nat
  fn : (state event : V) → ActionResult V

/-- The part of `cflow_machine_instance_config` that outlives initialization, with
`CFLOW_MACHINE_INSTANCE_QUANTUM`. -/
structure MachineConfig (V : Type) where
  machine : MachineRows
  initialState : V
  guards : List (GuardBinding V)
  actions : List (ActionBinding V)
  mailboxCapacity : Nat
  quantum : Nat := 64

namespace MachineConfig

variable {V : Type} (c : MachineConfig V)

def findState (id : Nat) : Option MachineState := findRow MachineState.id c.machine.states id

def findGuardBinding (id : Nat) : Option (GuardBinding V) := findRow GuardBinding.id c.guards id

def findActionBinding (id : Nat) : Option (ActionBinding V) := findRow ActionBinding.id c.actions id

def findActionDeclaration (id : Nat) : Option MachineActionRow :=
  findRow MachineActionRow.id c.machine.actions id

/-- `transition_enabled` with the error text so far: the result, `enabled` and the text. -/
def transitionEnabled (t : MachineTransition) (state event : V) (error : Option String) :
    Bool × Bool × Option String :=
  if t.guard = 0 then (true, true, error)
  else
    match c.findGuardBinding t.guard with
    | none => (false, false, some "machine guard binding is missing")
    | some binding =>
      let r := binding.fn state event
      (r.ok, r.enabled, r.error.or error)

/-- The first row that is not below a state and an event, by binary search. -/
def firstTransition (state event : Nat) : (fuel left right : Nat) → Nat
  | 0, left, _ => left
  | fuel + 1, left, right =>
    if left < right then
      let middle := left + (right - left) / 2
      if c.machine.transitions[middle]?.any
          (fun t => t.source < state || (t.source == state && t.event < event)) then
        firstTransition state event fuel (middle + 1) right
      else firstTransition state event fuel left middle
    else left

def scanTransitions (state : MachineState) (value : V) (id : Nat) (event : V) :
    List MachineTransition → (index : Nat) → Option String →
      Except (Option String) (Nat × MachineTransition × Option String)
  | [], _, error => .error (error.or (some "no enabled transition"))
  | t :: rest, index, error =>
    if t.source ≠ state.id ∨ t.event ≠ id then
      .error (error.or (some "no enabled transition"))
    else
      match c.transitionEnabled t value event error with
      | (false, _, error) => .error error
      | (true, true, error) => .ok (index, t, error)
      | (true, false, error) => scanTransitions state value id event rest (index + 1) error

/-- `select_transition`: the selected row with the text left in `error`, or the error. -/
def selectTransition (state : MachineState) (value : V) (id : Nat) (event : V) :
    Except (Option String) (Nat × MachineTransition × Option String) :=
  let count := c.machine.transitions.length
  let first := c.firstTransition state.id id count 0 count
  c.scanTransitions state value id event (c.machine.transitions.drop first) first none

/-- What `run_action` leaves in `target_value`, `observation_value` and `out_action`. -/
structure Staged (V : Type) where
  value : V
  action : Option MachineActionRow
  observation : Option V
  deriving DecidableEq

def runAction (t : MachineTransition) (value event : V) (error : Option String) :
    Except (Option String) (Staged V) :=
  if t.action = 0 then .ok { value := value, action := none, observation := none }
  else
    match c.findActionDeclaration t.action, c.findActionBinding t.action with
    | some action, some binding =>
      let r := binding.fn value event
      if r.ok then
        .ok
          { value := r.target
            action := some action
            observation := if action.observation = .none then none else some r.observation }
      else if !action.mayFail then .error (some "machine action contract violation")
      else .error ((r.error.or error).or (some "machine action failed"))
    | _, _ => .error (some "machine action binding is missing")

/-- What one event does to a state and its value: the selected transition, its action and its
target. -/
def fire (state : MachineState × V) (e : Event V) : Option (MachineState × V) :=
  match c.selectTransition state.1 state.2 e.id e.payload with
  | .error _ => none
  | .ok (_, t, error) =>
    match c.runAction t state.2 e.payload error with
    | .error _ => none
    | .ok staged => (c.findState t.target).map fun target => (target, staged.value)

end MachineConfig

/-! The functions on `MachineInstance` are the regions under `impl->lock`; a `MachineCall` is a region
or a call that any thread may have to run next, a `TaskPoint` is where `machine_executor_task`
stands. -/

inductive ReadyKind where
  | none
  | value
  | valueAndDone
  | done
  | error
  deriving DecidableEq

inductive ControlLifecycle where
  | opened
  | closeRequested
  | cancelRequested
  | terminal
  deriving DecidableEq

namespace ControlLifecycle

def closing : ControlLifecycle → ControlLifecycle
  | .opened => .closeRequested
  | l => l

end ControlLifecycle

/-- `cflow_machine_worker_phase`.  The phase COMMITTING begins and ends under one lock. -/
inductive WorkerPhase where
  | idle
  | scheduled
  | executing
  deriving DecidableEq

inductive RuntimeError where
  | callback (message : Option String)
  | targetInvalid
  | emittedFull
  | emittedRejected
  | commitInvalid
  | enteredError
  | receiveFailed
  | armFailed
  | executorFull
  | executorClosed
  | initialError
  deriving DecidableEq

namespace RuntimeError

/-- The text `runtime_copy_error` keeps. -/
def text : RuntimeError → String
  | .callback none => "machine runtime error"
  | .callback (some message) => if message = "" then "machine runtime error" else message
  | .targetInvalid => "machine transition target is invalid"
  | .emittedFull => "machine emitted Event mailbox is full"
  | .emittedRejected => "machine emitted Event was rejected"
  | .commitInvalid => "machine commit phase is invalid"
  | .enteredError => "entered error state"
  | .receiveFailed => "machine mailbox receive failed"
  | .armFailed => "machine mailbox waitable arm failed"
  | .executorFull => "machine SerialExecutor is full"
  | .executorClosed => "machine SerialExecutor is closed"
  | .initialError => "initial error state"

end RuntimeError

/-- `cflow_machine_instance_impl`; `queued` are its tasks in the executor. -/
structure MachineInstance (V : Type) where
  mailbox : Mailbox V
  mailboxInitialized : Bool
  state : MachineState
  stateValue : V
  observationValue : Option V := none
  error : Option RuntimeError := none
  completed : Nat := 0
  failed : Nat := 0
  cancelledInFlight : Nat := 0
  emittedValues : Nat := 0
  emittedEvents : Nat := 0
  inFlight : Nat := 0
  closed : Bool := false
  cancelled : Bool := false
  done : Bool := false
  rerun : Bool := false
  mailboxArmed : Bool := false
  lifecycle : ControlLifecycle := .opened
  workerPhase : WorkerPhase := .idle
  downstreamWaiter : Bool := false
  terminalWaiter : Bool := false
  ready : ReadyKind := .none
  queued : Nat := 0

/-- What happens to the events of an instance and to the instance itself.  `entered` is a commit
into an error state, `cancelled` an event that was in flight. -/
inductive MachineEntry (V : Type) where
  | accepted (e : Event V)
  | received (e : Event V)
  | completed (e : Event V)
  | entered (e : Event V)
  | failed (e : Event V) (r : RuntimeError)
  | cancelled (e : Event V)
  | cancelRequested
  | postRejected
  | woken (downstream terminal : Bool)
  | resumed (s : Step (Option V))
  deriving DecidableEq

/-- Who cancels the mailbox: `cflow_machine_instance_close`, or the others. -/
inductive MailboxCanceller where
  | close
  | terminal
  deriving DecidableEq

/-- Who called `schedule_machine_task`: `machine_resume`, which looks at its result, or the
others. -/
inductive ScheduleCaller where
  | resume
  | other
  deriving DecidableEq

inductive MachineCall (V : Type) where
  | send (e : Event V)
  | resume
  | answer (ok : Bool)
  | waitArm
  | waitCancel
  | bindTerminal
  | close
  | cancel
  | unarm
  | cancelMailbox (by_ : MailboxCanceller)
  | wake
  | schedule (caller : ScheduleCaller)
  | post (caller : ScheduleCaller)
  | unschedule (caller : ScheduleCaller) (r : RuntimeError)
  | fail (r : RuntimeError)
  | publishDone
  | arm
  | armCall
  | armFailed
  | invoke (downstream terminal : Bool)

namespace MachineCall

def api {V : Type} : MachineCall V → Bool
  | .send _ => true
  | .resume => true
  | .waitArm => true
  | .waitCancel => true
  | .bindTerminal => true
  | .close => true
  | .cancel => true
  | _ => false

end MachineCall

inductive EventStage (V : Type) where
  | select
  | act (t : MachineTransition) (error : Option String)
  | failing (r : RuntimeError)
  | staged (t : MachineTransition) (staged : MachineConfig.Staged V)
  deriving DecidableEq

/-- What `process_event` commits. -/
structure Prepared (V : Type) where
  target : MachineState
  staged : MachineConfig.Staged V
  deriving DecidableEq

namespace Prepared

def observation {V : Type} (p : Prepared V) : Option ActionObservation :=
  p.staged.action.map MachineActionRow.observation

end Prepared

/-- Where `machine_executor_task` stands, with the iteration and the event. -/
inductive TaskPoint (V : Type) where
  | start
  | head (i : Nat)
  | receive (i : Nat)
  | empty (i : Nat)
  | count (i : Nat) (e : Event V)
  | settle (i : Nat) (e : Event V) (next : EventStage V)
  | select (i : Nat) (e : Event V)
  | act (i : Nat) (e : Event V) (t : MachineTransition) (error : Option String)
  | readClosed (i : Nat) (e : Event V) (p : Prepared V)
  | emit (i : Nat) (e : Event V) (p : Prepared V)
  | commit (i : Nat) (e : Event V) (p : Prepared V)
  | failing (i : Nat) (e : Event V) (r : RuntimeError)
  | exit (i : Nat)
  | returned
  deriving DecidableEq

namespace MachineInstance

variable {V : Type}

def init (c : MachineConfig V) : MachineInstance V :=
  let kind := c.machine.initial.kind
  let mailbox : Mailbox V := { schema := c.machine.events, capacity := c.mailboxCapacity }
  { mailbox := if kind = .active then mailbox else mailbox.cancel.1
    mailboxInitialized := !c.machine.events.isEmpty
    state := c.machine.initial
    stateValue := c.initialState
    done := kind ≠ .active
    lifecycle := if kind = .active then .opened else .terminal
    error := if kind = .error then some .initialError else none
    ready :=
      match kind with
      | .active => .none
      | .done => .done
      | .error => .error }

def wakers (m : MachineInstance V) : MachineCall V := .invoke m.downstreamWaiter m.terminalWaiter

/-- The locked part of `fail_runtime`; `settle` is `settle_current_event`. -/
def failRuntime (m : MachineInstance V) (r : RuntimeError) (settle : Bool) : MachineInstance V :=
  let cancelWon := m.lifecycle == .cancelRequested
  { m with
    error := if !cancelWon && m.error.isNone then some r else m.error
    inFlight := if settle then m.inFlight - 1 else m.inFlight
    cancelledInFlight :=
      if settle && cancelWon then counterIncrement m.cancelledInFlight else m.cancelledInFlight
    failed := if settle && !cancelWon then counterIncrement m.failed else m.failed
    workerPhase := .idle
    lifecycle := .terminal
    done := true
    ready := if cancelWon then .done else .error
    downstreamWaiter := false
    terminalWaiter := false }

def publishDone (m : MachineInstance V) : MachineInstance V :=
  { m with
    workerPhase := .idle
    lifecycle := .terminal
    done := true
    ready := .done
    downstreamWaiter := false
    terminalWaiter := false }

def settleCancelled (m : MachineInstance V) : MachineInstance V :=
  { m with
    inFlight := m.inFlight - 1
    cancelledInFlight := counterIncrement m.cancelledInFlight
    workerPhase := .idle
    lifecycle := .terminal
    done := true
    ready := .done
    downstreamWaiter := false
    terminalWaiter := false }

/-- `publish_control_terminal_locked`. -/
def publishControlTerminal (m : MachineInstance V) : MachineInstance V :=
  { m with
    lifecycle := .terminal
    done := true
    ready :=
      match m.ready with
      | .value => .valueAndDone
      | .none => .done
      | r => r }

def resting (m : MachineInstance V) : Bool := m.workerPhase != .executing

def unarms (m : MachineInstance V) : List (MachineCall V) := if m.mailboxArmed then [.unarm] else []

def close (m : MachineInstance V) : MachineInstance V × List (MachineCall V) :=
  let n : MachineInstance V :=
    { m with closed := true, lifecycle := m.lifecycle.closing, mailboxArmed := false }
  match m.done || m.error.isSome || m.resting, m.error with
  | true, none =>
    ({ n.publishControlTerminal with downstreamWaiter := false, terminalWaiter := false },
      m.unarms ++ [.cancelMailbox .close, m.wakers])
  | true, some _ =>
    ({ n with downstreamWaiter := false, terminalWaiter := false },
      m.unarms ++ [.cancelMailbox .close, m.wakers])
  | false, _ => (n, m.unarms ++ [.cancelMailbox .close])

def requestCancel (m : MachineInstance V) : MachineInstance V × List (MachineCall V) :=
  if m.done || m.lifecycle == .terminal then (m, [])
  else
    let n : MachineInstance V :=
      { m with
        mailboxArmed := false
        closed := true
        cancelled := true
        lifecycle := .cancelRequested }
    if m.resting then
      ({ n.publishControlTerminal with downstreamWaiter := false, terminalWaiter := false },
        m.unarms ++ [.cancelMailbox .terminal, m.wakers])
    else (n, m.unarms ++ [.cancelMailbox .terminal])

/-- The first region of `schedule_machine_task`: whether a task is to be posted. -/
def schedule (m : MachineInstance V) : MachineInstance V × Bool :=
  if m.done || m.error.isSome || m.ready != .none then (m, false)
  else if m.workerPhase != .idle then ({ m with rerun := true }, false)
  else ({ m with workerPhase := .scheduled }, true)

def back (caller : ScheduleCaller) (ok : Bool) : List (MachineCall V) :=
  match caller with
  | .resume => [.answer ok]
  | .other => []

/-- The region of `machine_resume`: the step, or none when the task is to be scheduled. -/
def resume (m : MachineInstance V) : MachineInstance V × Option (Step (Option V)) :=
  match m.ready with
  | .value => ({ m with ready := .none }, some (.value m.observationValue))
  | .valueAndDone => (m, some (.valueAndDone m.observationValue))
  | ready =>
    if ready = .error || m.error.isSome then (m, some (.error (m.error.map RuntimeError.text)))
    else if ready = .done || m.done then (m, some .done)
    else (m, none)

def pollTerminal (m : MachineInstance V) : Terminal :=
  match m.error with
  | some r => .error (some r.text)
  | none => if m.done then .done else .opened

def commitState (m : MachineInstance V) (p : Prepared V) : MachineInstance V :=
  { m with
    stateValue := p.staged.value
    state := p.target
    inFlight := m.inFlight - 1
    failed := if p.target.kind = .error then counterIncrement m.failed else m.failed
    completed := if p.target.kind = .error then m.completed else counterIncrement m.completed }

def readyOf : MachineStateKind → ReadyKind
  | .active => .value
  | .done => .valueAndDone
  | .error => .error

/-- A commit: the observation of the action, and whether the downstream waiter is taken. -/
def commitObservation (m : MachineInstance V) (p : Prepared V) : MachineInstance V × Bool :=
  if p.observation = some .event ∧ m.closed = false then
    ({ m with emittedEvents := counterIncrement m.emittedEvents }, false)
  else if p.observation = some .value then
    ({ m with
        emittedValues := counterIncrement m.emittedValues
        ready := readyOf p.target.kind
        done := m.done || p.target.kind != .active
        downstreamWaiter := false },
      m.downstreamWaiter)
  else if p.target.kind = .done then
    ({ m with done := true, ready := .done, downstreamWaiter := false }, m.downstreamWaiter)
  else (m, false)

/-- A commit that a close overlaps.  A waiter that the value took is overwritten here by the empty
one. -/
def commitClosed (r : MachineInstance V × Bool) (p : Prepared V) : MachineInstance V × Bool :=
  if r.1.lifecycle = .closeRequested ∧ p.target.kind = .active then
    ({ r.1 with
        done := true
        ready := if p.observation = some .value then .valueAndDone else .done
        downstreamWaiter := false },
      r.1.downstreamWaiter)
  else r

def commitPhase (m : MachineInstance V) (p : Prepared V) : MachineInstance V :=
  { m with
    workerPhase := .scheduled
    lifecycle := if m.done || p.target.kind == .error then .terminal else m.lifecycle }

/-- The commit of `process_event` behind `begin_commit_locked`, with the wakers it takes. -/
def commitAllowed (m : MachineInstance V) (p : Prepared V) : MachineInstance V × MachineCall V :=
  let r := commitClosed ((m.commitState p).commitObservation p) p
  let n := r.1.commitPhase p
  if n.done && p.target.kind != .error then
    ({ n with terminalWaiter := false }, .invoke r.2 n.terminalWaiter)
  else (n, .invoke r.2 false)

def bindTerminal (m : MachineInstance V) : MachineInstance V × List (MachineCall V) :=
  if m.done || m.error.isSome then ({ m with terminalWaiter := false }, [.invoke false true])
  else ({ m with terminalWaiter := true }, [])

/-- `machine_wait_arm`; the waker is invoked when there is something to resume for. -/
def waitArm (m : MachineInstance V) : MachineInstance V × List (MachineCall V) :=
  if m.ready != .none || m.done || m.error.isSome then (m, [.invoke true false])
  else if m.downstreamWaiter then (m, [])
  else ({ m with downstreamWaiter := true }, [])

def woken (taken : Bool) : List (MachineCall V) := if taken then [.wake] else []

def callStep (m : MachineInstance V) (a : Admission) :
    MachineCall V → MachineInstance V × List (MachineCall V) × List (MachineEntry V)
  | .send e =>
    if m.mailboxInitialized then
      match m.mailbox.trySend e with
      | (mailbox, .ok, taken) => ({ m with mailbox := mailbox }, woken taken, [.accepted e])
      | _ => (m, [], [])
    else (m, [], [])
  | .resume =>
    match m.resume with
    | (n, some s) => (n, [], [.resumed s])
    | (n, none) => (n, [.schedule .resume], [])
  | .answer ok =>
    (m, [], [.resumed (if ok then .wait else .error (m.error.map RuntimeError.text))])
  | .waitArm => (m.waitArm.1, m.waitArm.2, [])
  | .waitCancel => ({ m with downstreamWaiter := false }, [], [])
  | .bindTerminal => (m.bindTerminal.1, m.bindTerminal.2, [])
  | .close => (m.close.1, m.close.2, [])
  | .cancel => (m.requestCancel.1, m.requestCancel.2, [.cancelRequested])
  | .unarm => ({ m with mailbox := m.mailbox.waitCancel }, [], [])
  | .cancelMailbox _ =>
    if m.mailboxInitialized then
      ({ m with mailbox := m.mailbox.cancel.1 }, woken m.mailbox.cancel.2, [])
    else (m, [], [])
  | .wake => ({ m with mailboxArmed := false }, [.schedule .other], [])
  | .schedule caller =>
    match m.schedule with
    | (n, true) => (n, [.post caller], [])
    | (n, false) => (n, back caller true, [])
  | .post caller =>
    match a with
    | .accepted => ({ m with queued := m.queued + 1 }, back caller true, [])
    | .full => (m, [.unschedule caller .executorFull], [.postRejected])
    | _ => (m, [.unschedule caller .executorClosed], [.postRejected])
  | .unschedule caller r =>
    ({ m with workerPhase := .idle }, .fail r :: back caller false, [])
  | .fail r => (m.failRuntime r false, [.cancelMailbox .terminal, m.wakers], [])
  | .publishDone => (m.publishDone, [.cancelMailbox .terminal, m.wakers], [])
  | .arm =>
    if m.done || m.error.isSome then (m, [], [])
    else ({ m with mailboxArmed := true }, [.armCall], [])
  | .armCall =>
    match m.mailbox.waitArm with
    | (mailbox, .woken) => ({ m with mailbox := mailbox }, [.wake], [])
    | (mailbox, .waiting) => ({ m with mailbox := mailbox }, [], [])
    | (mailbox, .refused) => ({ m with mailbox := mailbox }, [.armFailed], [])
  | .armFailed => ({ m with mailboxArmed := false }, [.fail .armFailed], [])
  | .invoke downstream terminal => (m, [], [.woken downstream terminal])

def goOn (c : MachineConfig V) (i : Nat) (e : Event V) : EventStage V → TaskPoint V
  | .select => .select i e
  | .act t error => .act i e t error
  | .failing r => .failing i e r
  | .staged t staged =>
    match c.findState t.target with
    | none => .failing i e .targetInvalid
    | some target =>
      let p : Prepared V := { target := target, staged := staged }
      if p.observation = some .event then .readClosed i e p else .commit i e p

/-- `emit_action_event`: the mailbox status of the event an action emits. -/
def emitActionEvent (m : MachineInstance V) (p : Prepared V) :
    MachineInstance V × MailboxStatus × Bool × Option (Event V) :=
  match p.staged.action, p.staged.observation with
  | some action, some payload =>
    let e : Event V :=
      { id := action.outputEventId, payloadType := action.outputType, payload := payload }
    if m.mailboxInitialized then
      match m.mailbox.trySend e with
      | (mailbox, status, taken) => ({ m with mailbox := mailbox }, status, taken, some e)
    else (m, .invalidArgument, false, none)
  | _, _ => (m, .invalidArgument, false, none)

/-- The commit region of `process_event`. -/
def commit (m : MachineInstance V) (i : Nat) (e : Event V) (p : Prepared V) :
    MachineInstance V × List (MachineCall V) × List (MachineEntry V) × TaskPoint V :=
  if m.lifecycle = .cancelRequested then
    (m.settleCancelled, [.cancelMailbox .terminal, m.wakers], [.cancelled e], .exit i)
  else if m.workerPhase ≠ .executing ∨ m.lifecycle = .terminal then
    (m, [], [], .failing i e .commitInvalid)
  else
    let r := m.commitAllowed p
    let runtimeClosed := m.lifecycle = .closeRequested
    match p.target.kind with
    | .error => (r.1, [.fail .enteredError], [.entered e], .exit i)
    | .done => (r.1, [.cancelMailbox .terminal, r.2], [.completed e], .exit i)
    | .active =>
      (r.1, (if runtimeClosed then [.cancelMailbox .terminal] else []) ++ [r.2], [.completed e],
        if runtimeClosed ∨ p.observation = some .value then .exit i else .head (i + 1))

def taskStep (c : MachineConfig V) (m : MachineInstance V) :
    TaskPoint V → MachineInstance V × List (MachineCall V) × List (MachineEntry V) × TaskPoint V
  | .start => ({ m with rerun := false }, [], [], .head 0)
  | .head i =>
    if i < c.quantum then
      if m.done || m.error.isSome || m.ready != .none then (m, [], [], .exit i)
      else ({ m with workerPhase := .executing }, [], [], .receive i)
    else (m, [], [], .exit i)
  | .receive i =>
    if m.mailboxInitialized then
      match m.mailbox.tryReceive with
      | (mailbox, _, some e) => ({ m with mailbox := mailbox }, [], [.received e], .count i e)
      | (_, .empty, none) => (m, [], [], .empty i)
      | (_, _, none) => (m, [.publishDone], [], .exit i)
    else (m, [.fail .receiveFailed], [], .exit i)
  | .empty i =>
    ({ m with workerPhase := .scheduled },
      if m.lifecycle = .opened then [.arm] else [.publishDone], [], .exit i)
  | .count i e => ({ m with inFlight := m.inFlight + 1 }, [], [], .settle i e .select)
  | .settle i e next =>
    if m.lifecycle = .cancelRequested then
      (m.settleCancelled, [m.wakers], [.cancelled e], .exit i)
    else (m, [], [], goOn c i e next)
  | .select i e =>
    match c.selectTransition m.state m.stateValue e.id e.payload with
    | .error error => (m, [], [], .settle i e (.failing (.callback error)))
    | .ok (_, t, error) => (m, [], [], .settle i e (.act t error))
  | .act i e t error =>
    match c.runAction t m.stateValue e.payload error with
    | .error error => (m, [], [], .settle i e (.failing (.callback error)))
    | .ok staged =>
      ({ m with observationValue := staged.observation.or m.observationValue }, [], [],
        .settle i e (.staged t staged))
  | .readClosed i e p => (m, [], [], if m.closed then .commit i e p else .emit i e p)
  | .emit i e p =>
    match m.emitActionEvent p with
    | (n, .ok, taken, sent) =>
      (n, woken taken, sent.toList.map .accepted, .commit i e p)
    | (n, .full, _, _) => (n, [], [], .failing i e .emittedFull)
    | (n, _, _, _) => (n, [], [], .failing i e .emittedRejected)
  | .commit i e p => m.commit i e p
  | .failing i e r =>
    (m.failRuntime r true, [.cancelMailbox .terminal, m.wakers],
      [if m.lifecycle = .cancelRequested then .cancelled e else .failed e r], .exit i)
  | .exit i =>
    ({ m with workerPhase := if m.workerPhase = .scheduled then .idle else m.workerPhase },
      if (m.rerun || i = c.quantum) && !m.done && m.error.isNone && m.ready == .none then
        [.schedule .other] else [],
      [], .returned)
  | .returned => (m, [], [], .returned)

end MachineInstance

/-- An instance, the task that the serial executor runs, the other threads and what happened. -/
structure MachineSystem (V : Type) where
  inst : MachineInstance V
  worker : Option (List (MachineCall V) × TaskPoint V) := none
  threads : List (List (MachineCall V)) := []
  history : List (MachineEntry V) := []

/-- One atomic action: a thread enters, a thread runs its next region, the executor starts a queued
task, or the task makes a step. -/
inductive MachineAction (V : Type) where
  | enter (k : MachineCall V)
  | call (t : Nat) (a : Admission)
  | dispatch
  | work (a : Admission)

namespace MachineSystem

variable {V : Type}

def create (c : MachineConfig V) : MachineSystem V := { inst := .init c }

def step (c : MachineConfig V) (s : MachineSystem V) : MachineAction V → Option (MachineSystem V)
  | .enter k => if k.api then some { s with threads := s.threads ++ [[k]] } else none
  | .call t a =>
    match s.threads[t]? with
    | some (k :: rest) =>
      let r := s.inst.callStep a k
      some { s with
        inst := r.1
        threads := s.threads.set t (r.2.1 ++ rest)
        history := s.history ++ r.2.2 }
    | _ => none
  | .dispatch =>
    if s.worker.isNone && 0 < s.inst.queued then
      some { s with
        inst := { s.inst with queued := s.inst.queued - 1 }
        worker := some ([], .start) }
    else none
  | .work a =>
    match s.worker with
    | none => none
    | some (k :: rest, p) =>
      let r := s.inst.callStep a k
      some { s with
        inst := r.1
        worker := some (r.2.1 ++ rest, p)
        history := s.history ++ r.2.2 }
    | some ([], .returned) => some { s with worker := none }
    | some ([], p) =>
      let r := s.inst.taskStep c p
      some { s with
        inst := r.1
        worker := some (r.2.1, r.2.2.2)
        history := s.history ++ r.2.2.1 }

end MachineSystem

structure MachineStats where
  accepted : Nat
  completed : Nat
  failed : Nat
  cancelledEvents : Nat
  pending : Nat
  inFlight : Nat

/-- `machine_observe_stats` under the locks of the mailbox and of the instance. -/
def MachineInstance.stats {V : Type} (m : MachineInstance V) : MachineStats :=
  { accepted := m.mailbox.accepted
    completed := m.completed
    failed := m.failed
    cancelledEvents := m.mailbox.cancelled + m.cancelledInFlight
    pending := m.mailbox.queue.length
    inFlight :=
      if m.mailbox.received = uint64Max then m.inFlight
      else m.mailbox.received - m.completed - m.failed - m.cancelledInFlight }

end Salts.CFlow
