import Salts.CFlowRunState
import Salts.ThreadPool

/-!
The threads of a subscription: callers of request, cancel, wake and close, posted pump tasks, and
events of the source.  A move is one region under `r->lock` or one call out of it, and the threads
are those of a `ThreadPool` over the `RunImpl`.

A sink callback may request or cancel; that is a thread of its own here.  Only close differs inside
a callback (`active_pump_run == r`): it does not wait, so it is made by the thread of the callback.
-/

namespace Salts.CFlow

/-- Where a call made on the way returns to; `ignored` is a caller that drops the status. -/
inductive RunReturn where
  | caller
  | ignored
  | release
  | closer
  | inValue (i : Nat)
  | inDone
  | inError (next : Option Nat)
  | inRejected (status : Status) (k : RunReturn)
  deriving DecidableEq

/-- Where a thread stands.  `i` counts the units of a pump task, `next` is the unit behind a failure
(`none` when the loop ends). -/
inductive RunPoint (α ε : Type) where
  -- callers
  | request (n : Nat)
  | wake
  | source (e : ε)
  | cancel (k : RunReturn)
  | closeClaim
  | closeMark (k : RunReturn)
  | closeWait
  | closeDestroy
  -- `schedule_pump`
  | schedule (failOnRejection published : Bool) (k : RunReturn)
  | posting (generation : Nat) (k : RunReturn)
  | accepted (k : RunReturn)
  | rejected (generation : Nat) (result : Admission) (k : RunReturn)
  | notifyRejected (message : String) (status : Status) (k : RunReturn)
  | inRejected (status : Status) (k : RunReturn)
  | releaseRejected (status : Status) (k : RunReturn)
  | releasePosting (status : Status) (k : RunReturn)
  -- `pump_task`
  | task (generation : Nat)
  | head (i : Nat)
  | takeCancel (i : Nat)
  | processUnit (i : Nat)
  | deliver (i : Nat) (v : α)
  | inValue (i : Nat)
  | arm (i : Nat)
  | arming (i : Nat)
  | fail (status : Status) (message : String) (next : Option Nat)
  | notifyError (message : String) (next : Option Nat)
  | inError (next : Option Nat)
  | finish
  | notifyDone
  | inDone
  | tail
  | releaseTask
  -- `run_destroy_claimed`
  | destroy (external : Bool)
  | free (external : Bool)
  | closeReturned
  | finished (status : Status)

/-- What the world decides at a move: `go` is the usual way, `reject` the answer of the scheduler,
`cancelTask` runs the cancel callback of a posted task, `refuse` is false from a callback, and
`close` closes the run from inside one. -/
inductive RunChoice where
  | go
  | reject (result : Admission)
  | cancelTask
  | refuse
  | close
  deriving DecidableEq

namespace RunPoint

variable {α ε : Type}

def back (status : Status) : RunReturn → RunPoint α ε
  | .caller => .finished status
  | .ignored => .finished .ok
  | .release => .releaseTask
  | .closer => .closeWait
  | .inValue i => .inValue i
  | .inDone => .inDone
  | .inError next => .inError next
  | .inRejected st k => .inRejected st k

/-- The loop of `pump_task` behind a unit. -/
def loop : Option Nat → RunPoint α ε
  | some i => .head i
  | none => .tail

def entry : RunPoint α ε → Bool
  | .request _ => true
  | .wake => true
  | .source _ => true
  | .cancel .ignored => true
  | .closeClaim => true
  | _ => false

end RunPoint

namespace RunImpl

variable {δ α ε : Type}

abbrev Move (δ α ε : Type) := RunImpl δ α × RunPoint α ε × List (RunPoint α ε)

def afterUnit (r : RunImpl δ α) (i : Nat) : UnitResult δ α → RunImpl δ α × RunPoint α ε
  | .done d more => ({ r with plane := d }, .loop (if more then some (i + 1) else none))
  | .value d v => ({ r with plane := d }, .deliver i v)
  | .wait d => ({ r with plane := d }, .arm i)
  | .fail d status message => ({ r with plane := d }, .fail status message none)

def processUnit (P : Plane δ α ε) (r : RunImpl δ α) (i : Nat) : RunImpl δ α × RunPoint α ε :=
  match P.topFrame r.plane with
  | some true => ({ r with plane := P.popFrame r.plane }, .head (i + 1))
  | some false => if r.demand = 0 then (r, .tail) else r.afterUnit i (P.resumeTop r.plane r.demand)
  | none =>
    if P.sourceDone r.plane then
      if P.nodesDone r.plane then (r, .finish)
      else if r.demand = 0 then (r, .tail)
      else r.afterUnit i (P.flushNode r.plane)
    else if r.demand = 0 then
      match P.poll r.plane with
      | .opened => (r, .tail)
      | .done => ({ r with plane := P.markSourceDone r.plane }, .head (i + 1))
      | .error m => (r, .fail .executionError (m.getD "source terminal error") (some (i + 1)))
    else r.afterUnit i (P.sourceStep r.plane r.demand)

/-- The callers of request, wake, cancel and close, and the events of the source: one that ends the
source wakes the run, any other may. -/
def moveCaller (P : Plane δ α ε) (r : RunImpl δ α) :
    RunPoint α ε → RunChoice → Option (Move δ α ε)
  | .request n, .go =>
    if r.freed ≠ 0 ∨ n = 0 then some (r, .finished .invalidArgument, [])
    else if r.closed || r.terminated then some (r, .finished r.terminalRequestStatus, [])
    else some (r.addDemand n, .schedule false true .caller, [])
  | .wake, .go =>
    if r.freed ≠ 0 then some (r, .finished .ok, [])
    else some ({ r with waiting := false }, .schedule true false .ignored, [])
  | .source e, .go => some ({ r with plane := P.event r.plane e }, .wake, [])
  | .source e, .refuse =>
    if P.poll (P.event r.plane e) = .opened ∨ P.poll r.plane ≠ .opened then
      some ({ r with plane := P.event r.plane e }, .finished .ok, [])
    else none
  | .cancel k, .go =>
    if r.freed ≠ 0 then some (r, .back .ok k, [])
    else some ({ r with cancelRequested := true, waiting := false }, .schedule false false k, [])
  | .closeClaim, .go =>
    if r.freed ≠ 0 then some (r, .closeReturned, [])
    else if r.externalCloser || r.destroying then none
    else some ({ r with externalCloser := true }, .closeMark .closer, [])
  | .closeMark k, .go =>
    some ({ r with closeRequested := true }, if r.closeRequested then .back .ok k else .cancel k,
      [])
  | .closeWait, .go => if r.taskRefs = 0 then some (r, .closeDestroy, []) else none
  | .closeDestroy, .go => some ({ r with destroying := true }, .destroy true, [])
  | _, _ => none

/-- `schedule_pump`. -/
def moveSchedule (r : RunImpl δ α) : RunPoint α ε → RunChoice → Option (Move δ α ε)
  | .schedule failOnRejection published k, .go =>
    if r.admits && !r.exhausted then
      some (r.takeTaskRefs failOnRejection, .posting (r.nextTaskGeneration + 1) k, [])
    else some (r.joinScheduled failOnRejection, .back (r.unpostedStatus published) k, [])
  | .posting generation k, .go => some (r, .accepted k, [.task generation])
  | .posting generation k, .reject result => some (r, .rejected generation result k, [])
  | .accepted k, .go =>
    some ({ r with taskPosting := r.taskPosting - 1 }, .releasePosting .ok k, [])
  | .rejected generation result k, .go =>
    some (r.rejectPost generation result,
      if r.rejectionFails generation then
        .notifyRejected (schedulerRejectionError result) (schedulerRejectionStatus result) k
      else .releaseRejected (schedulerRejectionStatus result) k, [])
  | .notifyRejected message status k, .go =>
    some ({ r with log := r.log ++ [.error message] }, .inRejected status k, [])
  | .inRejected status k, .go => some (r, .releaseRejected status k, [])
  | .inRejected status k, .close => some (r, .closeMark (.inRejected status k), [])
  | .releaseRejected status k, .go =>
    some (r.releaseTaskRef.1,
      if r.releaseTaskRef.2 then .destroy false else .releasePosting status k, [])
  | .releasePosting status k, .go =>
    some (r.releaseTaskRef.1, if r.releaseTaskRef.2 then .destroy false else .back status k, [])
  | _, _ => none

/-- `pump_task` and `pump_task_cancel`. -/
def movePump (P : Plane δ α ε) (r : RunImpl δ α) :
    RunPoint α ε → RunChoice → Option (Move δ α ε)
  | .task _, .go => some ({ r.clearScheduledTask with pumpRunning := true }, .head 0, [])
  | .task _, .cancelTask =>
    let c := r.clearScheduledTask
    some (if r.terminated then c else c.takeCancel P, .releaseTask, [])
  | .head i, .go =>
    some (r, if runQuantum ≤ i ∨ r.loopEnds P = true then .tail else .takeCancel i, [])
  | .takeCancel i, .go =>
    if r.terminated then some (r, .tail, [])
    else if r.cancelRequested then some (r.takeCancel P, .tail, [])
    else some (r, .processUnit i, [])
  | .processUnit i, .go =>
    some ((r.processUnit P i).1, (r.processUnit P i).2, [])
  | .deliver i v, .go =>
    if r.demand = 0 then
      some (r, .fail .executionError "runtime produced value without demand" none, [])
    else some ({ r with demand := r.demand - 1, log := r.log ++ [.value v] }, .inValue i, [])
  | .inValue i, .go => some (r, .head (i + 1), [])
  | .inValue _, .refuse => some (r, .fail .executionError "observer rejected value" none, [])
  | .inValue i, .close => some (r, .closeMark (.inValue i), [])
  | .arm i, .go => some ({ r with waiting := true }, .arming i, [])
  | .arming i, .go => some (r, .head (i + 1), [])
  | .arming _, .refuse =>
    some ({ r with waiting := false }, .fail .executionError "waitable arm failed" none, [])
  | .fail status message next, .go =>
    if r.terminated then some (r, .loop next, [])
    else some (r.failStatus status message, .notifyError message next, [])
  | .notifyError message next, .go =>
    some ({ r with log := r.log ++ [.error message] }, .inError next, [])
  | .inError next, .go => some (r, .loop next, [])
  | .inError next, .close => some (r, .closeMark (.inError next), [])
  | .finish, .go =>
    if r.terminated then some (r, .tail, [])
    else some ({ r with terminated := true }, .notifyDone, [])
  | .notifyDone, .go => some ({ r with log := r.log ++ [.done] }, .inDone, [])
  | .inDone, .go => some (r, .tail, [])
  | .inDone, .close => some (r, .closeMark .inDone, [])
  | .tail, .go =>
    some ({ r with pumpRunning := false },
      if !r.terminated && !r.waiting && r.runnable P then .schedule true false .release
      else .releaseTask, [])
  | .releaseTask, .go =>
    some (r.releaseTaskRef.1, if r.releaseTaskRef.2 then .destroy false else .finished .ok, [])
  | .destroy external, .go => some ({ r with closed := true }, .free external, [])
  | .free external, .go =>
    some ({ r with freed := r.freed + 1 }, if external then .closeReturned else .finished .ok, [])
  | _, _ => none

def move (P : Plane δ α ε) (r : RunImpl δ α) (p : RunPoint α ε) (c : RunChoice) :
    Option (Move δ α ε) :=
  (r.moveCaller P p c).or ((r.moveSchedule p c).or (r.movePump P p c))

end RunImpl

end Salts.CFlow
