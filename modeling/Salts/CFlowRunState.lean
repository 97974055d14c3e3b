import Salts.CFlowStep

/-!
The state of a subscription (`run_impl` of `subscription.c`) and its regions under `r->lock`.  The
source, the continuations and the operator states belong to the pump; they are a `Plane`, of which
the lifecycle reads only what `process_unit` and the end of `pump_task` read.
-/

namespace Salts.CFlow

inductive Status where
  | ok
  | invalidArgument
  | typeMismatch
  | unsupported
  | capacityExceeded
  | allocationFailed
  | cancelled
  | closed
  | executionError
  | wouldBlock
  deriving DecidableEq

/-- `cflow_admission_status`. -/
inductive Admission where
  | accepted
  | invalidArgument
  | full
  | closed
  | allocationFailed
  deriving DecidableEq

inductive Terminal where
  | opened
  | done
  | error (message : Option String)
  deriving DecidableEq

/-- What a unit of work on the plane ends with: `more` is its result, the other cases leave the
rest of the unit to the lifecycle. -/
inductive UnitResult (δ α : Type) where
  | done (plane : δ) (more : Bool)
  | value (plane : δ) (v : α)
  | wait (plane : δ)
  | fail (plane : δ) (status : Status) (message : String)

/-- The part of a run that only its pump works on.  `topFrame` is the `done` flag of the top
continuation, `demand` is passed on as the downstream demand, and `event` is what happens to the
source on other threads: it does not touch the continuations and the operator states. -/
structure Plane (δ α ε : Type) where
  topFrame : δ → Option Bool
  sourceDone : δ → Bool
  nodesDone : δ → Bool
  poll : δ → Terminal
  popFrame : δ → δ
  markSourceDone : δ → δ
  cancel : δ → δ
  resumeTop : δ → Nat → UnitResult δ α
  flushNode : δ → UnitResult δ α
  sourceStep : δ → Nat → UnitResult δ α
  event : δ → ε → δ
  topFrame_event : ∀ d e, topFrame (event d e) = topFrame d
  sourceDone_event : ∀ d e, sourceDone (event d e) = sourceDone d
  nodesDone_event : ∀ d e, nodesDone (event d e) = nodesDone d

inductive SinkEvent (α : Type) where
  | value (v : α)
  | done
  | error (message : String)
  | cancelled
  deriving DecidableEq

def SinkEvent.ends {α : Type} : SinkEvent α → Bool
  | .value _ => false
  | _ => true

/-- `run_impl`.  `freed` counts the calls of `free`; from the first on the owner's `impl` is null. -/
structure RunImpl (δ α : Type) where
  plane : δ
  demand : Nat := 0
  taskRefs : Nat := 0
  taskPosting : Nat := 0
  taskScheduled : Bool := false
  scheduledTaskGeneration : Nat := 0
  nextTaskGeneration : Nat := 0
  rejectionMustFail : Bool := false
  pumpRunning : Bool := false
  waiting : Bool := false
  cancelRequested : Bool := false
  cancelled : Bool := false
  terminated : Bool := false
  closeRequested : Bool := false
  externalCloser : Bool := false
  destroying : Bool := false
  closed : Bool := false
  error : Option String := none
  status : Status := .ok
  freed : Nat := 0
  log : List (SinkEvent α) := []

def runQuantum : Nat := 64

def schedulerRejectionError : Admission → String
  | .full => "scheduler is full"
  | .closed => "scheduler is closed"
  | .allocationFailed => "scheduler could not allocate Run pump"
  | .invalidArgument => "scheduler rejected Run pump"
  | .accepted => "scheduler rejected Run pump"

def schedulerRejectionStatus : Admission → Status
  | .full => .capacityExceeded
  | .closed => .closed
  | .allocationFailed => .allocationFailed
  | .invalidArgument => .invalidArgument
  | .accepted => .executionError

namespace RunImpl

variable {δ α ε : Type}

/-- `terminal_request_status_locked`. -/
def terminalRequestStatus (r : RunImpl δ α) : Status :=
  if r.closed || (!r.cancelled && r.status == .ok) then .closed
  else if r.cancelled then .cancelled
  else r.status

def endedStatus (r : RunImpl δ α) (published : Bool) : Status :=
  if published && r.terminated && !r.closed && !r.closeRequested && !r.cancelRequested &&
      !r.cancelled && r.status == .ok then .ok
  else r.terminalRequestStatus

/-- A counter of `schedule_pump` would overflow. -/
def exhausted (r : RunImpl δ α) : Bool :=
  decide (sizeMax - 2 < r.taskRefs) || r.taskPosting == sizeMax || r.nextTaskGeneration == sizeMax

/-- `schedule_pump` goes on to post a task. -/
def admits (r : RunImpl δ α) : Bool :=
  !r.closed && !r.terminated && !r.pumpRunning && !r.waiting && !r.taskScheduled

/-- The region of `schedule_pump` that takes the posting and the task reference. -/
def takeTaskRefs (r : RunImpl δ α) (failOnRejection : Bool) : RunImpl δ α :=
  { r with
    taskScheduled := true
    nextTaskGeneration := r.nextTaskGeneration + 1
    scheduledTaskGeneration := r.nextTaskGeneration + 1
    rejectionMustFail := failOnRejection
    taskPosting := r.taskPosting + 1
    taskRefs := r.taskRefs + 2 }

/-- A task is on its way already, and `schedule_pump` only adds the duty to fail to it. -/
def joins (r : RunImpl δ α) : Bool :=
  !r.closed && !r.terminated && !r.pumpRunning && !r.waiting && r.taskScheduled

def joinScheduled (r : RunImpl δ α) (failOnRejection : Bool) : RunImpl δ α :=
  { r with rejectionMustFail := r.rejectionMustFail || (r.joins && failOnRejection) }

def unpostedStatus (r : RunImpl δ α) (published : Bool) : Status :=
  if r.closed || r.terminated then r.endedStatus published
  else if r.admits then .executionError
  else .ok

def current (r : RunImpl δ α) (generation : Nat) : Bool :=
  r.taskScheduled && r.scheduledTaskGeneration == generation

def rejectionFails (r : RunImpl δ α) (generation : Nat) : Bool :=
  r.current generation && r.rejectionMustFail && !r.cancelRequested && !r.closeRequested &&
    !r.terminated

def rejectPost (r : RunImpl δ α) (generation : Nat) (result : Admission) : RunImpl δ α :=
  { r with
    taskPosting := r.taskPosting - 1
    taskScheduled := r.taskScheduled && !r.current generation
    rejectionMustFail := r.rejectionMustFail && !r.current generation
    error := if r.rejectionFails generation then some (schedulerRejectionError result) else r.error
    status := if r.rejectionFails generation then schedulerRejectionStatus result else r.status
    terminated := r.terminated || r.rejectionFails generation }

def failStatus (r : RunImpl δ α) (status : Status) (message : String) : RunImpl δ α :=
  { r with
    error := some message
    status := if status == .ok then .executionError else status
    terminated := true }

/-- The run takes its cancellation (`take_cancel_request`, `pump_task_cancel`). -/
def takeCancel (P : Plane δ α ε) (r : RunImpl δ α) : RunImpl δ α :=
  { r with
    cancelRequested := false
    cancelled := true
    terminated := true
    plane := P.cancel r.plane
    log := r.log ++ [.cancelled] }

/-- `run_clear_scheduled_task_locked` with the flag both tasks clear next. -/
def clearScheduledTask (r : RunImpl δ α) : RunImpl δ α :=
  { r with taskScheduled := false, rejectionMustFail := false }

/-- `runnable` at the end of `pump_task`. -/
def runnable (P : Plane δ α ε) (r : RunImpl δ α) : Bool :=
  let d := r.demand
  r.cancelRequested ||
    (match P.topFrame r.plane with
      | some done => done || decide (0 < d)
      | none => false) ||
    (!P.sourceDone r.plane && decide (0 < d)) ||
    (P.sourceDone r.plane && (P.topFrame r.plane).isNone && P.nodesDone r.plane) ||
    (P.sourceDone r.plane && !P.nodesDone r.plane && decide (0 < d))

def loopEnds (P : Plane δ α ε) (r : RunImpl δ α) : Bool :=
  r.waiting || r.terminated || (r.demand == 0 && P.topFrame r.plane == some false) ||
    (P.sourceDone r.plane && !P.nodesDone r.plane && r.demand == 0)

/-- `run_release_task_ref`: the state behind it and whether the caller has to destroy the run. -/
def releaseTaskRef (r : RunImpl δ α) : RunImpl δ α × Bool :=
  let destroy := r.taskRefs - 1 == 0 && r.closeRequested && r.freed == 0 && !r.externalCloser &&
    !r.destroying
  ({ r with taskRefs := r.taskRefs - 1, destroying := r.destroying || destroy }, destroy)

def addDemand (r : RunImpl δ α) (n : Nat) : RunImpl δ α :=
  { r with demand := min sizeMax (r.demand + n) }

end RunImpl

/-! ### The array publisher of `publishers.c` -/

/-- `array_state`: the elements from `index` on. -/
structure ArraySource (α : Type) where
  rest : List α
  sourceDone : Bool := false

namespace ArraySource

variable {α : Type}

def resume (s : ArraySource α) : ArraySource α × Step α :=
  match s.rest with
  | [] => (s, .done)
  | v :: rest => ({ s with rest := rest }, if rest.isEmpty then .valueAndDone v else .value v)

def sourceStep (d : ArraySource α) : UnitResult (ArraySource α) α :=
  match d.resume with
  | (c, .value v) => .value c v
  | (c, .valueAndDone v) => .value { c with sourceDone := true } v
  | (c, .wait) => .wait c
  | (c, .done) => .done { c with sourceDone := true } true
  | (c, .error m) => .fail c .executionError (m.getD "source error")

/-- A run over an array without operators; nothing happens to an array on other threads. -/
def plane : Plane (ArraySource α) α Unit where
  topFrame _ := none
  sourceDone d := d.sourceDone
  nodesDone _ := true
  poll _ := .opened
  popFrame d := d
  markSourceDone d := { d with sourceDone := true }
  cancel d := d
  resumeTop d _ := .done d true
  flushNode d := .done d true
  sourceStep d _ := d.sourceStep
  event d _ := d
  topFrame_event _ _ := rfl
  sourceDone_event _ _ := rfl
  nodesDone_event _ _ := rfl

end ArraySource

/-! ### The channel publisher of `publishers.c` -/

structure Channel (α : Type) where
  capacity : Nat
  data : List α := []
  closed : Bool := false

inductive ChannelStatus where
  | ok
  | full
  | closed
  deriving DecidableEq

namespace Channel

variable {α : Type}

def tryPush (c : Channel α) (v : α) : Channel α × ChannelStatus :=
  if c.closed then (c, .closed)
  else if c.data.length = c.capacity then (c, .full)
  else ({ c with data := c.data ++ [v] }, .ok)

def close (c : Channel α) : Channel α := { c with closed := true }

def resume (c : Channel α) : Channel α × Step α :=
  match c.data with
  | v :: rest =>
    ({ c with data := rest }, if c.closed && rest.isEmpty then .valueAndDone v else .value v)
  | [] => (c, if c.closed then .done else .wait)

def pollTerminal (c : Channel α) : Terminal :=
  if c.closed && c.data.isEmpty then .done else .opened

end Channel

inductive ChannelEvent (α : Type) where
  | push (v : α)
  | close

structure ChannelSource (α : Type) where
  channel : Channel α
  sourceDone : Bool := false

namespace ChannelSource

variable {α : Type}

def sourceStep (d : ChannelSource α) : UnitResult (ChannelSource α) α :=
  match d.channel.resume with
  | (c, .value v) => .value { d with channel := c } v
  | (c, .valueAndDone v) => .value { channel := c, sourceDone := true } v
  | (c, .wait) => .wait { d with channel := c }
  | (c, .done) => .done { channel := c, sourceDone := true } true
  | (c, .error m) => .fail { d with channel := c } .executionError (m.getD "source error")

def event (d : ChannelSource α) : ChannelEvent α → ChannelSource α
  | .push v => { d with channel := (d.channel.tryPush v).1 }
  | .close => { d with channel := d.channel.close }

/-- A run over a channel without operators: no continuations, no operator states. -/
def plane : Plane (ChannelSource α) α (ChannelEvent α) where
  topFrame _ := none
  sourceDone d := d.sourceDone
  nodesDone _ := true
  poll d := d.channel.pollTerminal
  popFrame d := d
  markSourceDone d := { d with sourceDone := true }
  cancel d := d
  resumeTop d _ := .done d true
  flushNode d := .done d true
  sourceStep d _ := d.sourceStep
  event := event
  topFrame_event _ _ := rfl
  sourceDone_event _ e := by cases e <;> rfl
  nodesDone_event _ _ := rfl

end ChannelSource

end Salts.CFlow
