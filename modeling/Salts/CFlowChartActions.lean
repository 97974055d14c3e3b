import Salts.CFlowChartStep

/-!
The actions of a microstep and of the controlled exit, in the order in which they are invoked, and
the completions that the new configuration brings.  Which executables run, in which phase and with
which states active is settled by the configuration, the histories and the selected transitions.
-/

namespace Salts.CFlow

inductive InstanceStatus where
  | ok
  | invalidArgument
  | invalidExecutor
  | bindingMismatch
  | unsupportedType
  | limitExceeded
  | allocationFailed
  | invalidConfiguration
  | guardFailed
  | actionFailed
  | internalQueueFull
  | completionQueueFull
  | internalEventInvalid
  | internalEventTypeMismatch
  | effectJournalFull
  | microstepLimitExceeded
  | executorFull
  | executorClosed
  | taskCancelled
  | wouldBlock
  | hookFailed
  deriving DecidableEq

inductive ActionPhase where
  | exit
  | transition
  | entry
  | initial
  | history
  deriving DecidableEq

namespace ChartImpl

variable {c : ChartImpl}

section Order

def exitBefore (left right : c.State) : Bool :=
  if c.isProperDescendant left right then true
  else if c.isProperDescendant right left then false
  else decide ((c.states right).documentOrder < (c.states left).documentOrder)

def entryBefore (left right : c.State) : Bool :=
  if c.isProperDescendant right left then true
  else if c.isProperDescendant left right then false
  else decide ((c.states left).documentOrder < (c.states right).documentOrder)

/-- The inner loop of `stable_order_states`; the states placed so far stand in reverse. -/
def placeState (before : c.State → c.State → Bool) (value : c.State) : List c.State → List c.State
  | [] => [value]
  | state :: placed =>
    if before value state then state :: placeState before value placed
    else value :: state :: placed

def stableOrderStates (before : c.State → c.State → Bool) (states : List c.State) : List c.State :=
  (states.foldl (fun placed state => placeState before state placed) []).reverse

end Order

/-- A step of a microstep: an executable to invoke, with the states its query finds active, a check
that fails, the target configuration, the completions, and the move of the last value. -/
inductive Task (c : ChartImpl) where
  | call (executable : Nat) (phase : ActionPhase) (owner : Nat) (active : c.Bits)
  | fail (status : InstanceStatus) (error : String)
  | target (bits : c.Bits)
  | clearCompleted (exited : c.Bits)
  | complete (state : c.State)
  | finalize

/-- `run_state_action_span`. -/
def stateTasks (active : c.Bits) (state : c.State) (kind : StateActionKind) : List (Task c) :=
  (c.stateActions state kind).map fun executable =>
    .call executable (if kind = .exit then .exit else .entry) (c.states state).id active

/-- `run_transition_action_span`. -/
def transitionTasks (active : c.Bits) (t : c.Transition) (phase : ActionPhase) : List (Task c) :=
  (c.transitionActions t).map fun executable =>
    .call executable phase (c.transitions t).source active

/-- The loop over the exited states; a state is inactive once its actions have run. -/
def exitTasks : c.Bits → List c.State → List (Task c)
  | _, [] => []
  | active, state :: rest =>
    stateTasks active state .exit ++ exitTasks (Function.update active state false) rest

/-- `run_pseudo_transition_action`. -/
def pseudoTasks (active : c.Bits) (t : c.Transition) (source : Option c.State) : List (Task c) :=
  match source with
  | none => [.fail .invalidConfiguration "Statechart pseudo transition source is invalid"]
  | some s =>
    if (c.kind s).pseudo = false then
      [.fail .invalidConfiguration "Statechart pseudo transition source is invalid"]
    else transitionTasks active t (if c.kind s = .initial then .initial else .history)

/-- `run_pseudo_transition_action_chain`: the default of a history that remembers nothing follows
the initial transition that leads to it. -/
def pseudoChainTasks (active : c.Bits) (h : c.HistoryBuffer) (t : c.Transition) : List (Task c) :=
  let source := c.source t
  let history := (source.filter fun s => decide (c.kind s = .initial)).bind fun _ =>
    (c.transitionTargets t).head?.filter fun target => (c.kind target).history
  match history with
  | none => pseudoTasks active t source
  | some target =>
    match c.defaultTransitionIndices target with
    | none => [.fail .invalidConfiguration "Statechart initial history chain is invalid"]
    | some t' =>
      pseudoTasks active t source ++
        if h.counts target = 0 then pseudoTasks active t' (some target) else []

def pendingPseudoTasks (active : c.Bits) (h : c.HistoryBuffer) (w : c.EntryWork) : List (Task c) :=
  w.pseudoOrder.flatMap fun t =>
    if ((c.source t).bind c.parents).any fun owner => w.entryBits owner then []
    else pseudoChainTasks active h t

def entryTasks (h : c.HistoryBuffer) (w : c.EntryWork) : c.Bits → List c.State → List (Task c)
  | _, [] => []
  | active, state :: rest =>
    let active := Function.update active state true
    stateTasks active state .entry ++
      ((w.pseudoByState state).elim [] fun t => pseudoChainTasks active h t) ++
      entryTasks h w active rest

/-- `execute_microstep` up to its commit. -/
def microstepTasks (bits : c.Bits) (history : c.HistoryBuffer) (selected : List c.Selected) :
    List (Task c) :=
  let exits := exitUnion selected
  let saved := saveAffectedHistory bits exits history
  let active := fun s => bits s && !exits s
  let request := selected.map (·.transition)
  exitTasks bits (stableOrderStates exitBefore ((c.activeStates bits).filter exits)) ++
    request.flatMap (fun t => transitionTasks active t .transition) ++
    match buildTargetConfiguration bits exits saved request with
    | none => [.fail .invalidConfiguration "Statechart staged configuration is invalid"]
    | some w =>
      .target w.bits :: pendingPseudoTasks active saved w ++
        entryTasks saved w active
          (stableOrderStates entryBefore (c.documentOrderIndices.filter w.entryBits)) ++
        .clearCompleted (fun s => exits s && (c.kind s).canComplete) ::
          c.documentOrderIndices.reverse.map .complete ++ [.finalize]

/-- `execute_controlled_exit` up to its commit: every active state is exited. -/
def controlledExitTasks (bits : c.Bits) : List (Task c) :=
  exitTasks bits (stableOrderStates exitBefore (c.activeStates bits)) ++
    [.target fun _ => false, .clearCompleted fun _ => true, .finalize]

section Completion

/-- `configuration_state_complete`, from the states found complete so far. -/
def stateComplete (bits work : c.Bits) (state : c.State) : Bool :=
  bits state && match c.kind state with
    | .final => true
    | .compound => (((c.children state).filter c.real).find? bits).any work
    | .parallel => ((c.children state).filter c.real).all fun child => bits child && work child
    | _ => false

/-- What `stage_completions` works on: the states found complete, the states whose completion is
announced already, and the completions to announce. -/
structure CompletionWork (c : ChartImpl) where
  work : c.Bits := fun _ => false
  announced : c.Bits
  rows : List c.State := []

/-- The loop of `stage_completions` at one state, with the room that is left in the queue; `none`
stands for COMPLETION_QUEUE_FULL. -/
def CompletionWork.complete (w : CompletionWork c) (bits : c.Bits) (room : Nat) (state : c.State) :
    Option (CompletionWork c) :=
  if bits state = false then
    some { w with announced := Function.update w.announced state false }
  else
    let work := if stateComplete bits w.work state then Function.update w.work state true else w.work
    if (c.kind state).canComplete = false then some { w with work := work }
    else if work state = false then
      some { w with work := work, announced := Function.update w.announced state false }
    else if w.announced state then some { w with work := work }
    else if room ≤ w.rows.length then none
    else some { work := work, announced := Function.update w.announced state true
                rows := w.rows ++ [state] }

end Completion

end ChartImpl

/-! ### The executor task, and the calls of other threads -/

structure InternalEvent where
  id : Nat
  payloadType : Nat
  payload : List UInt8
  originToken : Nat := 0
  deriving DecidableEq

/-- What an executable does: a refused raise or effect answers with its error; a null event or
ticket is `none`. -/
inductive Callback (σ ε : Type) where
  | ret (succeeded : Bool) (out : σ) (error : Option String)
  | raise (event : Option InternalEvent) (k : Option String → Callback σ ε)
  | stage (ticket : Option ε) (k : Option String → Callback σ ε)

/-- `cflow_statechart_executable_binding` with the effects of its declaration. -/
structure ExecutableBinding (σ ε : Type) where
  mayFail : Bool
  fn : ActionPhase → Nat → σ → Option InternalEvent → (Nat → Bool) → Callback σ ε

structure InstanceConfig (σ ε : Type) where
  executables : Nat → Option (ExecutableBinding σ ε)
  eventType : Nat → Option Nat
  internalEventCapacity : Nat
  completionCapacity : Nat
  effectCapacity : Nat

inductive TerminalOutcome where
  | error
  | close
  | cancel
  | cleanDone
  deriving DecidableEq

inductive MicrostepOutcome where
  | ok
  | failed (status : InstanceStatus) (error : String)
  | cancelled

/-- What is observed of a microstep: effects staged, committed and discarded, a step that is
refused, the publication, and the cancel that wins the terminal outcome. -/
inductive MicrostepEvent (ε : Type) where
  | staged (e : ε)
  | committed (e : ε)
  | discarded (e : ε)
  | refused (status : InstanceStatus)
  | published
  | cancelled

namespace MicrostepEvent

variable {ε : Type}

def stagedOf (log : List (MicrostepEvent ε)) : List ε :=
  log.filterMap fun | .staged e => some e | _ => none

def committedOf (log : List (MicrostepEvent ε)) : List ε :=
  log.filterMap fun | .committed e => some e | _ => none

def discardedOf (log : List (MicrostepEvent ε)) : List ε :=
  log.filterMap fun | .discarded e => some e | _ => none

end MicrostepEvent

namespace ChartImpl

variable {c : ChartImpl} {σ ε : Type}

structure Buffers (c : ChartImpl) (σ : Type) where
  bits : c.Bits
  history : c.HistoryBuffer
  announced : c.Bits
  value : σ

inductive Transaction (c : ChartImpl) where
  | microstep (selected : List c.Selected) (event : Option InternalEvent)
  | controlledExit

def Transaction.event : Transaction c → Option InternalEvent
  | .microstep _ event => event
  | .controlledExit => none

def Transaction.tasks (t : Transaction c) (b : Buffers c σ) : List (Task c) :=
  match t with
  | .microstep selected _ => microstepTasks b.bits b.history selected
  | .controlledExit => controlledExitTasks b.bits

/-- The buffers copied to the staged side; a microstep saves the affected histories there. -/
def Transaction.stage (t : Transaction c) (b : Buffers c σ) : Buffers c σ :=
  match t with
  | .microstep selected _ =>
    { b with history := saveAffectedHistory b.bits (exitUnion selected) b.history }
  | .controlledExit => b

/-- Where the task stands: before it copies the buffers, before the next step, inside an executable
(with the first refusals of a raise and of an effect), discarding what is left of the effects,
committing it, or finished. -/
inductive MicrostepPoint (c : ChartImpl) (σ ε : Type) where
  | start
  | tasks (rest : List (Task c))
  | calling (mayFail : Bool) (call : Callback σ ε) (raise effect : Option (InstanceStatus × String))
      (rest : List (Task c))
  | discarding (effects : List ε) (outcome : MicrostepOutcome)
  | committing (effects : List ε)
  | finished (outcome : MicrostepOutcome)

/-- The fields of an instance that a microstep and the calls beside it use. -/
structure MicrostepState (c : ChartImpl) (σ ε : Type) where
  published : Buffers c σ
  staged : Buffers c σ
  work : c.Bits := fun _ => false
  internal : List InternalEvent := []
  completions : List c.State := []
  stagedEvents : List InternalEvent := []
  stagedCompletions : List c.State := []
  stagedEffects : List ε := []
  terminal : Option TerminalOutcome := none
  exitRequested : Bool := false
  point : MicrostepPoint c σ ε := .start
  log : List (MicrostepEvent ε) := []

namespace MicrostepState

variable (env : InstanceConfig σ ε) (tr : Transaction c) (s : MicrostepState c σ ε)

def note (e : MicrostepEvent ε) : MicrostepState c σ ε := { s with log := s.log ++ [e] }

/-- `win_terminal_locked`: the first outcome stays, and the queues are cleared. -/
def winTerminal (outcome : TerminalOutcome) : MicrostepState c σ ε :=
  if s.terminal.isSome then s
  else { s with
    terminal := some outcome
    internal := []
    completions := []
    stagedEvents := []
    stagedCompletions := [] }

def cancel : MicrostepState c σ ε :=
  if s.terminal.isSome then s else (s.winTerminal .cancel).note .cancelled

def close : MicrostepState c σ ε := if s.exitRequested then s else s.winTerminal .close

def requestExit : MicrostepState c σ ε :=
  if s.terminal.isSome || s.exitRequested then s
  else { s with exitRequested := true, internal := [], completions := [] }

/-- The start of `microstep_fail` and of the failing end of `execute_controlled_exit`: the staged
work is dropped and its effects are discarded next. -/
def fail (status : InstanceStatus) (error : String) : MicrostepState c σ ε :=
  { s with
    stagedEvents := []
    stagedCompletions := []
    stagedEffects := []
    point := .discarding s.stagedEffects (.failed status error)
    log := s.log ++ [.refused status] }

def raiseRefusal (event : Option InternalEvent) : Except (InstanceStatus × String) InternalEvent :=
  match event with
  | none => .error (.internalEventInvalid, "Statechart internal event is invalid")
  | some e =>
    match env.eventType e.id with
    | none => .error (.internalEventInvalid, "Statechart internal event is unknown")
    | some t =>
      if t ≠ e.payloadType then
        .error (.internalEventTypeMismatch, "Statechart internal event type mismatch")
      else if env.internalEventCapacity - s.internal.length ≤ s.stagedEvents.length then
        .error (.internalQueueFull, "Statechart internal event queue is full")
      else .ok e

def effectRefusal (ticket : Option ε) : Except (InstanceStatus × String) ε :=
  match ticket with
  | none => .error (.actionFailed, "Statechart effect ticket is invalid")
  | some e =>
    if env.effectCapacity ≤ s.stagedEffects.length then
      .error (.effectJournalFull, "Statechart effect journal is full")
    else .ok e

def isActive (active : c.Bits) (id : Nat) : Bool :=
  (findStateIndex c.states id).any fun s => c.real s && active s

def callbackError (mayFail : Bool) (error : Option String) : String :=
  if mayFail then (error.filter fun text => text != "").getD "Statechart action failed"
  else "Statechart executable contract violation"

def callStep (mayFail : Bool) (call : Callback σ ε) (raise effect : Option (InstanceStatus × String))
    (rest : List (Task c)) : MicrostepState c σ ε :=
  match call with
  | .raise event k =>
    match raise with
    | some (_, error) =>
      { s with point := .calling mayFail (k (some error)) raise effect rest }
    | none =>
      match s.raiseRefusal env event with
      | .error (status, error) =>
        { s with
          point := .calling mayFail (k (some error)) (some (status, error)) effect rest
          log := s.log ++ [.refused status] }
      | .ok e =>
        { s with
          stagedEvents := s.stagedEvents ++ [e]
          point := .calling mayFail (k none) none effect rest }
  | .stage ticket k =>
    match effect with
    | some (_, error) =>
      { s with point := .calling mayFail (k (some error)) raise effect rest }
    | none =>
      match s.effectRefusal env ticket with
      | .error (status, error) =>
        { s with
          point := .calling mayFail (k (some error)) raise (some (status, error)) rest
          log := s.log ++ [.refused status] }
      | .ok e =>
        { s with
          stagedEffects := s.stagedEffects ++ [e]
          point := .calling mayFail (k none) raise none rest
          log := s.log ++ [.staged e] }
  | .ret succeeded out error =>
    match raise, effect with
    | some (status, text), _ => s.fail status text
    | none, some (status, text) => s.fail status text
    | none, none =>
      if succeeded then
        { s with staged := { s.staged with value := out }, point := .tasks rest }
      else s.fail .actionFailed (callbackError mayFail error)

/-- A step before the commit; `moves` tells whether the value could be moved. -/
def taskStep (moves : Bool) (task : Task c) (rest : List (Task c)) : MicrostepState c σ ε :=
  match task with
  | .call executable phase owner active =>
    match env.executables executable with
    | none => s.fail .actionFailed "Statechart executable context is invalid"
    | some b =>
      let call := b.fn phase owner s.staged.value tr.event (isActive active)
      { s with point := .calling b.mayFail call none none rest }
  | .fail status error => s.fail status error
  | .target bits => { s with staged := { s.staged with bits := bits }, point := .tasks rest }
  | .clearCompleted exited =>
    { s with
      staged := { s.staged with announced := fun x => s.staged.announced x && !exited x }
      work := fun _ => false
      point := .tasks rest }
  | .complete state =>
    let w : CompletionWork c := ⟨s.work, s.staged.announced, s.stagedCompletions⟩
    match w.complete s.staged.bits (env.completionCapacity - s.completions.length) state with
    | none => s.fail .completionQueueFull "Statechart completion queue is full"
    | some w =>
      { s with
        staged := { s.staged with announced := w.announced }
        work := w.work
        stagedCompletions := w.rows
        point := .tasks rest }
  | .finalize =>
    if moves then { s with point := .tasks rest }
    else s.fail .actionFailed (match tr with
      | .microstep _ _ => "Statechart action state finalization failed"
      | .controlledExit => "Statechart controlled exit state finalization failed")

/-- The task may publish: a microstep unless the instance was cancelled, the controlled exit unless
it has another outcome. -/
def mayPublish : Bool :=
  match tr with
  | .microstep _ _ => !(s.terminal == some .cancel)
  | .controlledExit => s.terminal.isNone

def publish : MicrostepState c σ ε :=
  let s : MicrostepState c σ ε := { s with
    published := s.staged
    stagedEffects := []
    point := .committing s.stagedEffects
    log := s.log ++ [.published] }
  match tr with
  | .microstep _ _ =>
    { s with
      internal := s.internal ++ s.stagedEvents
      completions := s.completions ++ s.stagedCompletions
      stagedEvents := []
      stagedCompletions := [] }
  | .controlledExit => s.winTerminal .cancel

def commit : MicrostepState c σ ε :=
  if s.mayPublish tr then s.publish tr
  else { s with
    stagedEvents := []
    stagedCompletions := []
    stagedEffects := []
    point := .discarding s.stagedEffects .cancelled }

def start (copies : Bool) : MicrostepState c σ ε :=
  let s : MicrostepState c σ ε := { s with stagedEffects := [] }
  if copies then
    { s with
      staged := tr.stage s.published
      stagedEvents := []
      stagedCompletions := []
      point := .tasks (tr.tasks s.published) }
  else s.fail .allocationFailed (match tr with
    | .microstep _ _ => "Statechart staged state copy failed"
    | .controlledExit => "Statechart controlled exit state copy failed")

/-- The task makes its next step; `ok` tells whether a copy or move of a value succeeds in it. -/
def run (ok : Bool) : Option (MicrostepState c σ ε) :=
  match s.point with
  | .start =>
    match tr with
    | .controlledExit =>
      if !s.exitRequested || s.terminal.isSome then
        some { s with point := .discarding [] .cancelled, stagedEffects := [] }
      else some (s.start tr ok)
    | .microstep _ _ => some (s.start tr ok)
  | .tasks [] => some (s.commit tr)
  | .tasks (task :: rest) => some (s.taskStep env tr ok task rest)
  | .calling mayFail call raise effect rest => some (s.callStep env mayFail call raise effect rest)
  | .discarding (e :: effects) outcome =>
    some { s with point := .discarding effects outcome, log := s.log ++ [.discarded e] }
  | .discarding [] (.failed status error) =>
    some { s.winTerminal .error with point := .finished (.failed status error) }
  | .discarding [] outcome => some { s with point := .finished outcome }
  | .committing (e :: effects) =>
    some { s with point := .committing effects, log := s.log ++ [.committed e] }
  | .committing [] => some { s with point := .finished .ok }
  | .finished _ => none

end MicrostepState

inductive MicrostepAction where
  | run (ok : Bool)
  | cancel
  | close
  | requestExit

def microstepStep (env : InstanceConfig σ ε) (tr : Transaction c) (s : MicrostepState c σ ε) :
    MicrostepAction → Option (MicrostepState c σ ε)
  | .run ok => s.run env tr ok
  | .cancel => some s.cancel
  | .close => some s.close
  | .requestExit => some s.requestExit

end ChartImpl

end Salts.CFlow
