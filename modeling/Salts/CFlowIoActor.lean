import Salts.CFlowStep
import Salts.ThreadPool

/-!
The I/O actor (`io_actor.c`): a bounded table of requests, a command queue that one driver at a time
works through, a backend that completes, an executor that delivers, and an acknowledger that
releases.  A move is one region under the gate or the answer of a callback outside it.

The disruptor ring is a first-in first-out queue.  A task that the executor has accepted is a thread
of its own, so it runs once and at any time, also before the post returns; a call from inside a
callback is a thread that enters meanwhile.
-/

namespace Salts.CFlow

inductive IoCompletionKind where
  | ok
  | eof
  | cancelled
  | failed
  deriving DecidableEq

structure IoCompletion where
  kind : IoCompletionKind := .ok
  bytes : Nat := 0
  error : Int := 0
  deriving DecidableEq

def IoCompletion.valid (c : IoCompletion) : Bool :=
  match c.kind with
  | .ok => c.error == 0
  | .eof => c.bytes == 0 && c.error == 0
  | .cancelled => c.bytes == 0 && c.error == 0
  | .failed => c.bytes == 0 && c.error != 0

def IoCompletion.cancelled : IoCompletion := { kind := .cancelled }

/-- `cflow_io_operation`: the user pointer and whether the release callback is set. -/
structure IoOperation where
  user : Nat := 0
  release : Bool := false
  deriving DecidableEq

/-- `cflow_io_request_phase`. -/
inductive IoPhase where
  | free
  | admitted
  | ready
  | backendPending
  | completed
  | dispatchQueued
  | dispatchRunning
  | delivered
  | releasing
  deriving DecidableEq

/-- `cflow_io_request_slot`. -/
structure IoSlot where
  requestId : Nat := 0
  leaseId : Nat := 0
  phase : IoPhase := .free
  operation : IoOperation := {}
  completion : IoCompletion := {}
  cancelRequested : Bool := false
  cancelDispatched : Bool := false

inductive IoCommand where
  | submit (id : Nat)
  | cancel (id : Nat)

inductive IoAdmission where
  | accepted
  | full
  | closed
  | invalid
  deriving DecidableEq

/-- What happens to one request: it is accepted, handed to the backend, completed, its callback is
called and returns, it is acknowledged and released. -/
inductive IoEvent where
  | accept
  | submit
  | complete (c : IoCompletion)
  | callback (lease : Nat) (user : Nat) (c : IoCompletion)
  | delivered
  | acknowledge
  | release (user : Nat)
  deriving DecidableEq

structure IoCounters where
  rejectedRequestFull : Nat := 0
  rejectedCommandFull : Nat := 0
  rejectedClosed : Nat := 0
  rejectedLeaseInUse : Nat := 0
  staleCompletions : Nat := 0
  backendSubmitErrors : Nat := 0
  backendCancelErrors : Nat := 0
  executorRejectedFull : Nat := 0
  executorRejectedClosed : Nat := 0
  executorRejectedInvalid : Nat := 0

/-- `cflow_io_actor_impl`.  The last fields are a record: the requests handed to the backend in
their order, those whose submit the backend accepted, the history of each request, and the requests
that were cancelled while they were admitted or ready. -/
structure IoActor where
  requests : Nat → IoSlot := fun _ => {}
  requestCapacity : Nat
  commandCapacity : Nat
  wake : Bool
  activeRequests : Nat := 0
  commands : List IoCommand := []
  callbacksInflight : Nat := 0
  nextRequestId : Nat := 1
  closing : Bool := false
  driverActive : Bool := false
  wakePending : Bool := false
  accepted : Nat := 0
  acknowledged : Nat := 0
  counters : IoCounters := {}
  submits : List Nat := []
  taken : List Nat := []
  history : Nat → List IoEvent := fun _ => []
  cancelled : List Nat := []

inductive IoSubmitStatus where
  | accepted
  | invalidArgument
  | full
  | closed
  | leaseInUse
  | idExhausted
  deriving DecidableEq

inductive IoCancelStatus where
  | accepted
  | invalidArgument
  | full
  | closed
  | notFound
  deriving DecidableEq

inductive IoCompleteStatus where
  | accepted
  | invalidArgument
  | notFound
  | notPending
  deriving DecidableEq

inductive IoAckStatus where
  | released
  | invalidArgument
  | notFound
  | busy
  deriving DecidableEq

inductive IoRunStatus where
  | progressed
  | idle
  | busy
  | invalidArgument
  deriving DecidableEq

inductive IoAnswer where
  | submit (status : IoSubmitStatus) (id : Nat)
  | cancel (status : IoCancelStatus)
  | complete (status : IoCompleteStatus)
  | run (status : IoRunStatus) (progressed : Nat)
  | ack (status : IoAckStatus)
  | close (already : Bool)
  -- the delivery task answers nothing
  | task
  deriving DecidableEq

inductive IoPoint where
  | submit (lease : Nat) (operation : IoOperation)
  | cancel (id : Nat)
  | complete (id : Nat) (c : IoCompletion)
  | run (maxSteps : Nat)
  | ack (id : Nat)
  | close
  -- `io_notify` and the wake callback
  | notify (answer : IoAnswer)
  | waking (answer : IoAnswer)
  -- the driver: between two steps, and in what a step does outside the gate
  | drive (maxSteps progressed : Nat)
  | cancelling (maxSteps progressed id : Nat)
  | submitting (maxSteps progressed id : Nat)
  | renotify (maxSteps progressed : Nat)
  | posting (maxSteps progressed i : Nat)
  | leave (progressed : Nat)
  -- the executor and the acknowledger
  | task (i : Nat)
  | delivering (i : Nat)
  | releasing (i id : Nat)
  | returned (answer : IoAnswer)
  deriving DecidableEq

/-- What the world decides at a move: the status of a backend call, or the executor's admission. -/
inductive IoChoice where
  | go
  | status (status : Int)
  | admission (status : IoAdmission)

def IoPoint.entry : IoPoint → Bool
  | .submit _ _ => true
  | .cancel _ => true
  | .complete _ _ => true
  | .run _ => true
  | .ack _ => true
  | .close => true
  | _ => false

/-- `io_counter_increment`. -/
def ioIncrement (counter : Nat) : Nat := if counter ≠ 2 ^ 64 - 1 then counter + 1 else counter

def IoPhase.early : IoPhase → Bool
  | .admitted => true
  | .ready => true
  | _ => false

namespace IoActor

abbrev Move := IoActor × IoPoint × List IoPoint

def put (a : IoActor) (i : Nat) (slot : IoSlot) : IoActor :=
  { a with requests := Function.update a.requests i slot }

def note (a : IoActor) (id : Nat) (events : List IoEvent) : IoActor :=
  { a with history := Function.update a.history id (a.history id ++ events) }

/-- `io_find_request_locked`. -/
def find (a : IoActor) (id : Nat) : Option Nat :=
  (List.range a.requestCapacity).find? fun i =>
    (a.requests i).phase != .free && (a.requests i).requestId == id

/-- `io_find_free_request_locked`. -/
def findFree (a : IoActor) : Option Nat :=
  (List.range a.requestCapacity).find? fun i => (a.requests i).phase == .free

/-- `io_lease_in_use_locked`. -/
def leaseInUse (a : IoActor) (lease : Nat) : Bool :=
  (List.range a.requestCapacity).any fun i =>
    (a.requests i).phase != .free && (a.requests i).leaseId == lease

def completeAt (a : IoActor) (i : Nat) (c : IoCompletion) : IoActor :=
  (a.put i { a.requests i with completion := c, phase := .completed }).note (a.requests i).requestId
    [.complete c]

def setPhase (a : IoActor) (i : Nat) (phase : IoPhase) : IoActor :=
  a.put i { a.requests i with phase := phase }

def returns (a : IoActor) (answer : IoAnswer) : Move := (a, .returned answer, [])

def prepareWake (a : IoActor) (answer : IoAnswer) : Move :=
  if a.driverActive || !a.wake then ({ a with wakePending := true }, .returned answer, [])
  else
    ({ a with wakePending := false, callbacksInflight := a.callbacksInflight + 1 }, .waking answer,
      [])

def admitAt (a : IoActor) (i : Nat) (lease : Nat) (operation : IoOperation) : IoActor :=
  let id := a.nextRequestId
  { (a.put i { requestId := id, leaseId := lease, phase := .admitted, operation := operation }).note
      id [.accept] with
    commands := a.commands ++ [.submit id]
    nextRequestId := id + 1
    activeRequests := a.activeRequests + 1
    accepted := ioIncrement a.accepted }

def submit (a : IoActor) (lease : Nat) (operation : IoOperation) : Move :=
  if lease = 0 ∨ operation.release = false then a.returns (.submit .invalidArgument 0)
  else if a.closing then
    ({ a with counters.rejectedClosed := ioIncrement a.counters.rejectedClosed }).returns
      (.submit .closed 0)
  else if a.leaseInUse lease then
    ({ a with counters.rejectedLeaseInUse := ioIncrement a.counters.rejectedLeaseInUse }).returns
      (.submit .leaseInUse 0)
  else if a.requestCapacity ≤ a.activeRequests then
    ({ a with counters.rejectedRequestFull := ioIncrement a.counters.rejectedRequestFull }).returns
      (.submit .full 0)
  else if a.commandCapacity ≤ a.commands.length then
    ({ a with counters.rejectedCommandFull := ioIncrement a.counters.rejectedCommandFull }).returns
      (.submit .full 0)
  else if a.nextRequestId = 2 ^ 64 - 1 then a.returns (.submit .idExhausted 0)
  else match a.findFree with
    | none =>
      ({ a with
          counters.rejectedCommandFull := ioIncrement a.counters.rejectedCommandFull }).returns
        (.submit .full 0)
    | some i => (a.admitAt i lease operation, .notify (.submit .accepted a.nextRequestId), [])

def cancel (a : IoActor) (id : Nat) : Move :=
  if id = 0 then a.returns (.cancel .invalidArgument)
  else match a.find id with
    | none => a.returns (.cancel .notFound)
    | some i =>
      if a.closing then a.returns (.cancel .closed)
      else if a.commandCapacity ≤ a.commands.length then
        ({ a with
            counters.rejectedCommandFull := ioIncrement a.counters.rejectedCommandFull }).returns
          (.cancel .full)
      else
        ({ a with
            commands := a.commands ++ [.cancel id]
            cancelled := if (a.requests i).phase.early then a.cancelled ++ [id]
              else a.cancelled }, .notify (.cancel .accepted), [])

def stale (a : IoActor) : IoActor :=
  { a with counters.staleCompletions := ioIncrement a.counters.staleCompletions }

/-- `io_complete_impl`. -/
def complete (a : IoActor) (id : Nat) (c : IoCompletion) : Move :=
  if id = 0 ∨ c.valid = false then a.returns (.complete .invalidArgument)
  else match a.find id with
    | none => a.stale.returns (.complete .notFound)
    | some i =>
      if (a.requests i).phase ≠ .backendPending then a.stale.returns (.complete .notPending)
      else (a.completeAt i c).prepareWake (.complete .accepted)

/-- `io_process_command_locked` on the command taken. -/
def process (a : IoActor) : IoCommand → IoActor
  | .submit id =>
    match a.find id with
    | none => a
    | some i =>
      if (a.requests i).phase ≠ .admitted then a
      else if a.closing then a.completeAt i .cancelled
      else a.setPhase i .ready
  | .cancel id =>
    match a.find id with
    | none => a
    | some i =>
      if (a.requests i).phase.early then a.completeAt i .cancelled
      else if (a.requests i).phase = .backendPending then
        a.put i { a.requests i with cancelRequested := true }
      else a

def findCancel (a : IoActor) : Option Nat :=
  (List.range a.requestCapacity).find? fun i =>
    (a.requests i).phase == .backendPending && (a.requests i).cancelRequested &&
      !(a.requests i).cancelDispatched

def firstReady (a : IoActor) (best : Option Nat) (i : Nat) : Option Nat :=
  if (a.requests i).phase = .ready then
    match best with
    | none => some i
    | some j => if (a.requests i).requestId < (a.requests j).requestId then some i else some j
  else best

def findReady (a : IoActor) : Option Nat :=
  (List.range a.requestCapacity).foldl a.firstReady none

def findCompleted (a : IoActor) : Option Nat :=
  (List.range a.requestCapacity).find? fun i => (a.requests i).phase == .completed

def handOver (a : IoActor) (i : Nat) : IoActor :=
  let id := (a.requests i).requestId
  { (a.setPhase i .backendPending).note id [.submit] with submits := a.submits ++ [id] }

/-- `io_plan_step_locked`. -/
def plan (a : IoActor) (maxSteps n : Nat) : Move :=
  match a.commands with
  | command :: rest => (({ a with commands := rest }).process command, .drive maxSteps (n + 1), [])
  | [] =>
    match a.findCancel with
    | some i =>
      (a.put i { a.requests i with cancelDispatched := true },
        .cancelling maxSteps n (a.requests i).requestId, [])
    | none =>
      match a.findReady with
      | some i =>
        if a.closing then (a.completeAt i .cancelled, .drive maxSteps (n + 1), [])
        else (a.handOver i, .submitting maxSteps n (a.requests i).requestId, [])
      | none =>
        match a.findCompleted with
        | some i => (a.setPhase i .dispatchQueued, .posting maxSteps n i, [])
        | none => (a, .leave n, [])

/-- `io_driver_enter`. -/
def run (a : IoActor) (maxSteps : Nat) : Move :=
  if maxSteps = 0 then a.returns (.run .invalidArgument 0)
  else if a.driverActive then a.returns (.run .busy 0)
  else ({ a with driverActive := true }, .drive maxSteps 0, [])

/-- `io_execute_submit` behind the backend's answer. -/
def submitted (a : IoActor) (maxSteps n id : Nat) (status : Int) : Move :=
  if status = 0 then ({ a with taken := a.taken ++ [id] }, .drive maxSteps (n + 1), [])
  else
    let a := { a with counters.backendSubmitErrors := ioIncrement a.counters.backendSubmitErrors }
    match a.find id with
    | none => (a, .drive maxSteps (n + 1), [])
    | some i =>
      if (a.requests i).phase ≠ .backendPending then (a, .drive maxSteps (n + 1), [])
      else (a.completeAt i { kind := .failed, error := status }, .renotify maxSteps n, [])

def rejectPost (counters : IoCounters) : IoAdmission → IoCounters
  | .full =>
    { counters with executorRejectedFull := ioIncrement counters.executorRejectedFull }
  | .closed =>
    { counters with executorRejectedClosed := ioIncrement counters.executorRejectedClosed }
  | _ => { counters with executorRejectedInvalid := ioIncrement counters.executorRejectedInvalid }

def posted (a : IoActor) (maxSteps n i : Nat) (admission : IoAdmission) : Move :=
  if admission = .accepted then (a, .drive maxSteps (n + 1), [.task i])
  else
    let a := { a with counters := rejectPost a.counters admission }
    (if (a.requests i).phase = .dispatchQueued then a.setPhase i .completed else a, .leave n, [])

def leave (a : IoActor) (n : Nat) : Move :=
  let answer := IoAnswer.run (if n ≠ 0 then .progressed else .idle) n
  let a := { a with driverActive := false }
  if a.wakePending && a.wake then
    ({ a with wakePending := false, callbacksInflight := a.callbacksInflight + 1 }, .waking answer,
      [])
  else ({ a with wakePending := false }, .returned answer, [])

/-- The first region of `io_delivery_task`. -/
def startTask (a : IoActor) (i : Nat) : Move :=
  let slot := a.requests i
  if slot.phase ≠ .dispatchQueued then a.returns .task
  else
    ({ (a.setPhase i .dispatchRunning).note slot.requestId
          [.callback slot.leaseId slot.operation.user slot.completion] with
        callbacksInflight := a.callbacksInflight + 1 }, .delivering i, [])

/-- The second region of `io_delivery_task`; a wake keeps the credit of the callback. -/
def endTask (a : IoActor) (i : Nat) : Move :=
  let a := if (a.requests i).phase = .dispatchRunning then
    (a.setPhase i .delivered).note (a.requests i).requestId [.delivered] else a
  if a.driverActive || !a.wake then
    ({ a with wakePending := true, callbacksInflight := a.callbacksInflight - 1 },
      .returned .task, [])
  else ({ a with wakePending := false }, .waking .task, [])

def acknowledge (a : IoActor) (id : Nat) : Move :=
  if id = 0 then a.returns (.ack .invalidArgument)
  else match a.find id with
    | none => a.returns (.ack .notFound)
    | some i =>
      if (a.requests i).phase ≠ .delivered then a.returns (.ack .busy)
      else
        ((a.setPhase i .releasing).note id
          [.acknowledge, .release (a.requests i).operation.user], .releasing i id, [])

/-- The second region of `cflow_io_actor_acknowledge`. -/
def free (a : IoActor) (i id : Nat) : Move :=
  let a := if (a.requests i).phase = .releasing ∧ (a.requests i).requestId = id then
    { a.put i {} with
      activeRequests := a.activeRequests - 1
      acknowledged := ioIncrement a.acknowledged } else a
  (a, .notify (.ack .released), [])

/-- One turn of the loop of `cflow_io_actor_close`. -/
def closeAt (a : IoActor) (i : Nat) : IoActor :=
  if (a.requests i).phase.early then
    { a.completeAt i .cancelled with cancelled := a.cancelled ++ [(a.requests i).requestId] }
  else if (a.requests i).phase = .backendPending then
    a.put i { a.requests i with cancelRequested := true }
  else a

def close (a : IoActor) : Move :=
  if a.closing then a.returns (.close true)
  else
    ((List.range a.requestCapacity).foldl closeAt { a with closing := true },
      .notify (.close false), [])

def quiescent (a : IoActor) : Bool :=
  a.closing && a.commands.isEmpty && a.activeRequests == 0 && !a.driverActive &&
    a.callbacksInflight == 0

def moveEntry (a : IoActor) : IoPoint → IoChoice → Option Move
  | .submit lease operation, .go => some (a.submit lease operation)
  | .cancel id, .go => some (a.cancel id)
  | .complete id c, .go => some (a.complete id c)
  | .run maxSteps, .go => some (a.run maxSteps)
  | .ack id, .go => some (a.acknowledge id)
  | .close, .go => some a.close
  | _, _ => none

def moveDriver (a : IoActor) : IoPoint → IoChoice → Option Move
  | .drive maxSteps n, .go =>
    some (if n < maxSteps then a.plan maxSteps n else (a, .leave n, []))
  | .cancelling maxSteps n _, .status status =>
    let errors := if status = 0 then a.counters.backendCancelErrors
      else ioIncrement a.counters.backendCancelErrors
    some ({ a with counters.backendCancelErrors := errors }, .drive maxSteps (n + 1), [])
  | .submitting maxSteps n id, .status status => some (a.submitted maxSteps n id status)
  -- the driver is active, so the notification only leaves its mark
  | .renotify maxSteps n, .go => some ({ a with wakePending := true }, .drive maxSteps (n + 1), [])
  | .posting maxSteps n i, .admission status => some (a.posted maxSteps n i status)
  | .leave n, .go => some (a.leave n)
  | _, _ => none

def moveRest (a : IoActor) : IoPoint → IoChoice → Option Move
  | .task i, .go => some (a.startTask i)
  | .delivering i, .go => some (a.endTask i)
  | .releasing i id, .go => some (a.free i id)
  | .notify answer, .go => some (a.prepareWake answer)
  | .waking answer, .go =>
    some ({ a with callbacksInflight := a.callbacksInflight - 1 }, .returned answer, [])
  | _, _ => none

def move (a : IoActor) (p : IoPoint) (c : IoChoice) : Option Move :=
  (a.moveEntry p c).or ((a.moveDriver p c).or (a.moveRest p c))

end IoActor

end Salts.CFlow
