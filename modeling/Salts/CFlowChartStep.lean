import Salts.CFlowChart
import Salts.Transition

/-!
What an instance computes from the tables of its statechart: the initial configuration, the
transitions selected for a trigger, and the configuration that a microstep stages.  A configuration
is the bitset of its active states; the list of active states that the source keeps beside it is
the document order filtered by the bits.  Each function that can answer `false` in the source
returns an option here.
-/

namespace Salts.CFlow

inductive ConfigurationStatus where
  | ok
  | invalidArgument
  | pseudoState
  | duplicateState
  | invalidOrder
  | missingAncestor
  | wrongChild
  | missingLeaf
  deriving DecidableEq

inductive ChartTrigger where
  | eventless
  | event (id : Nat)
  | completion (state : Nat)

namespace ChartImpl

variable (c : ChartImpl)

abbrev State : Type := Fin c.stateCount

abbrev Transition : Type := Fin c.transitionCount

abbrev Bits : Type := c.State → Bool

def activeStates (bits : c.Bits) : List c.State := c.documentOrderIndices.filter bits

def real (s : c.State) : Bool := !(c.kind s).pseudo

section Validate

variable (bits : c.Bits)

/-- The first loop of `validate_dense_configuration`, after the state before. -/
def stateError : Option c.State → List c.State → Option ConfigurationStatus
  | _, [] => none
  | previous, state :: rest =>
    if (c.kind state).pseudo then some .pseudoState
    else if bits state = false then some .invalidArgument
    else if previous.any fun p =>
        decide ((c.states state).documentOrder ≤ (c.states p).documentOrder) then
      some (if previous = some state then .duplicateState else .invalidOrder)
    else if (c.parents state).any fun p => !bits p then some .missingAncestor
    else stateError (some state) rest

def childrenError (state : c.State) : Option ConfigurationStatus :=
  let realChildren := (c.children state).filter c.real
  let active := realChildren.filter bits
  match c.kind state with
  | .compound => if active.length ≠ 1 then some .wrongChild else none
  | .parallel => if active.length ≠ realChildren.length then some .wrongChild else none
  | _ => none

def validateDenseConfiguration (states : List c.State) : ConfigurationStatus :=
  if states = [] ∨ bits c.root = false then .invalidArgument
  else match c.stateError bits none states <|> states.findSome? (c.childrenError bits) with
    | some e => e
    | none => if states.any fun s => (c.kind s).leaf then .ok else .missingLeaf

end Validate

/-- The buffers an entry fills: the bits of the configuration, of the states entered, the stack of
entered states whose children are not looked at yet, and the default transitions that ran. -/
structure EntryWork where
  bits : c.Bits
  entryBits : c.Bits := fun _ => false
  stack : List c.State := []
  pseudoByState : c.State → Option c.Transition := fun _ => none
  pseudoOrder : List c.Transition := []

namespace EntryWork

variable {c} (w : c.EntryWork)

/-- `activate_state` and `activate_staged`; only the latter notes the state as entered. -/
def activate (staged : Bool) (state : c.State) : Option c.EntryWork :=
  if (c.kind state).pseudo then none
  else if w.bits state then some w
  else if c.stateCount ≤ w.stack.length then none
  else some { w with
    bits := Function.update w.bits state true
    entryBits := if staged then Function.update w.entryBits state true else w.entryBits
    stack := state :: w.stack }

def activateAll (staged : Bool) : List c.State → c.EntryWork → Option c.EntryWork
  | [], w => some w
  | state :: rest, w => (w.activate staged state).bind fun w => activateAll staged rest w

/-- The walk of `activate_path_to`: the states on the way up to the first active one, the one
closest to the root first. -/
def pathTo : Nat → List c.State → Option c.State → Option (List c.State)
  | _, path, none => some path
  | 0, path, some current => if w.bits current then some path else none
  | fuel + 1, path, some current =>
    if w.bits current then some path
    else if (c.kind current).pseudo then none
    else pathTo fuel (current :: path) (c.parents current)

def activatePathTo (target : Option c.State) : Option c.EntryWork :=
  (w.pathTo c.stateCount [] target).bind fun path => activateAll true path w

def activateTargets : List c.State → c.EntryWork → Option c.EntryWork
  | [], w => some w
  | target :: rest, w => (w.activatePathTo (some target)).bind fun w => activateTargets rest w

def collectPseudoTransition (pseudo : c.State) : Option c.EntryWork :=
  (c.defaultTransitionIndices pseudo).bind fun transition =>
    (c.parents pseudo).bind fun owner =>
      if c.stateCount ≤ w.pseudoOrder.length ∨ (w.pseudoByState owner).isSome then none
      else some { w with
        pseudoByState := Function.update w.pseudoByState owner (some transition)
        pseudoOrder := w.pseudoOrder ++ [transition] }

end EntryWork

structure HistoryBuffer where
  bits : c.State → c.Bits := fun _ _ => false
  counts : c.State → Nat := fun _ => 0

variable {c}

def EntryWork.restoreHistoryTarget (w : c.EntryWork) (h : c.HistoryBuffer) (history : c.State)
    (collectDefaultAction : Bool) : Option c.EntryWork :=
  (w.activatePathTo (c.parents history)).bind fun w =>
    if h.counts history = 0 then
      (if collectDefaultAction then w.collectPseudoTransition history else some w).bind fun w =>
        (c.defaultTransitionIndices history).bind fun transition =>
          EntryWork.activateTargets (c.transitionTargets transition) w
    else
      EntryWork.activateTargets (c.documentOrderIndices.filter (h.bits history)) w

/-- A target of a transition: a history is restored, any other state entered. -/
def EntryWork.enterTarget (w : c.EntryWork) (h : c.HistoryBuffer) (collectDefaultAction : Bool)
    (target : c.State) : Option c.EntryWork :=
  if (c.kind target).history then w.restoreHistoryTarget h target collectDefaultAction
  else w.activatePathTo (some target)

def EntryWork.enterTargets (h : c.HistoryBuffer) (collectDefaultAction : Bool) :
    List c.State → c.EntryWork → Option c.EntryWork
  | [], w => some w
  | target :: rest, w =>
    (w.enterTarget h collectDefaultAction target).bind fun w =>
      enterTargets h collectDefaultAction rest w

def initialOf (state : c.State) : Option c.State :=
  ((c.children state).filter fun i => decide (c.kind i = .initial)).getLast?

/-- One turn of `enter_default_descendants`, for the state taken from the stack. -/
def EntryWork.enterDefault (w : c.EntryWork) (h : c.HistoryBuffer) (state : c.State) :
    Option c.EntryWork :=
  match c.kind state with
  | .compound =>
    let active := (c.children state).filter fun i => c.real i && w.bits i
    if 1 < active.length then none
    else (initialOf state).bind fun init =>
      if active ≠ [] then some w
      else (w.collectPseudoTransition init).bind fun w =>
        (c.defaultTransitionIndices init).bind fun transition =>
          EntryWork.enterTargets h false (c.transitionTargets transition) w
  | .parallel =>
    EntryWork.activateAll true ((c.children state).filter c.real).reverse w
  | _ => some w

/-- `enter_default_descendants`.  Every state is pushed once, so the turns are at most as many as the
states. -/
def EntryWork.enterDefaultDescendants (h : c.HistoryBuffer) :
    Nat → c.EntryWork → Option c.EntryWork
  | 0, w => if w.stack = [] then some w else none
  | fuel + 1, w =>
    match w.stack with
    | [] => some w
    | state :: stack =>
      (EntryWork.enterDefault { w with stack := stack } h state).bind
        (enterDefaultDescendants h fuel)

section Initial

/-- The walk of `activate_target_path` from a state up to the compound state it is entered for. -/
def pathBelow (compound : c.State) : Nat → List c.State → Option c.State → Option (List c.State)
  | _, _, none => none
  | 0, path, some current => if current = compound then some path else none
  | fuel + 1, path, some current =>
    if current = compound then some path
    else if (c.kind current).pseudo then none
    else pathBelow compound fuel (current :: path) (c.parents current)

def EntryWork.activateTargetPath (w : c.EntryWork) (compound target : c.State) :
    Option c.EntryWork :=
  (pathBelow compound c.stateCount [] (some target)).bind fun path =>
    if path = [] then none else activateAll false path w

def EntryWork.activateTargetPaths (compound : c.State) :
    List c.State → c.EntryWork → Option c.EntryWork
  | [], w => some w
  | target :: rest, w =>
    (w.activateTargetPath compound target).bind fun w => activateTargetPaths compound rest w

/-- A target of an initial transition before anything is remembered: a history stands for its own
default targets. -/
def EntryWork.activateInitialTarget (w : c.EntryWork) (compound target : c.State) :
    Option c.EntryWork :=
  if (c.kind target).history then
    (c.defaultTransitionIndices target).bind fun transition =>
      EntryWork.activateTargetPaths compound (c.transitionTargets transition) w
  else w.activateTargetPath compound target

def EntryWork.activateInitialTargets (compound : c.State) :
    List c.State → c.EntryWork → Option c.EntryWork
  | [], w => some w
  | target :: rest, w =>
    (w.activateInitialTarget compound target).bind fun w =>
      activateInitialTargets compound rest w

def EntryWork.enterInitial (w : c.EntryWork) (state : c.State) : Option c.EntryWork :=
  match c.kind state with
  | .compound =>
    let active := (c.children state).filter fun i => c.real i && w.bits i
    if 1 < active.length then none
    else (initialOf state).bind fun init =>
      if active ≠ [] then some w
      else (c.defaultTransitionIndices init).bind fun transition =>
        if (w.pseudoByState state).isSome then none
        else
          (EntryWork.activateInitialTargets state (c.transitionTargets transition) w).map fun w =>
            { w with pseudoByState := Function.update w.pseudoByState state (some transition) }
  | .parallel => EntryWork.activateAll false ((c.children state).filter c.real) w
  | _ => some w

def EntryWork.enterInitialDescendants : Nat → c.EntryWork → Option c.EntryWork
  | 0, w => if w.stack = [] then some w else none
  | fuel + 1, w =>
    match w.stack with
    | [] => some w
    | state :: stack =>
      (EntryWork.enterInitial { w with stack := stack } state).bind
        (enterInitialDescendants fuel)

/-- `build_initial_configuration`; `none` stands for INVALID_CONFIGURATION. -/
def buildInitialConfiguration (c : ChartImpl) : Option c.EntryWork :=
  ((EntryWork.activate (c := c) { bits := fun _ => false } false c.root).bind
    (EntryWork.enterInitialDescendants c.stateCount)).filter fun w =>
      c.validateDenseConfiguration w.bits (c.activeStates w.bits) == .ok

end Initial

section Select

/-- `trigger_matches`. -/
def matchesTrigger (t : ChartTransition) : ChartTrigger → Bool
  | .eventless => t.trigger == .eventless
  | .event id => t.trigger == .event && t.event == id
  | .completion state => t.trigger == .completion && t.completion == state

/-- A selected transition with the state it was found at and the active states it exits. -/
structure Selected (c : ChartImpl) where
  transition : c.Transition
  source : c.State
  exits : c.Bits

def computeExitSet (bits : c.Bits) (t : c.Transition) : c.Bits := fun state =>
  if c.targetless t then false
  else bits state && (c.transitionDomains t).all fun domain => c.isProperDescendant state domain

def exitSetsIntersect (left right : c.Bits) : Bool :=
  (List.finRange c.stateCount).any fun s => left s && right s

def filterCandidate (selected : List c.Selected) (candidate : c.Selected) : List c.Selected :=
  if selected.any fun s => exitSetsIntersect candidate.exits s.exits &&
      !c.isProperDescendant candidate.source s.source then selected
  else selected.filter (fun s => !exitSetsIntersect candidate.exits s.exits) ++ [candidate]

/-- The first enabled transition on the way up from an active leaf.  The guards are asked anew for
each leaf. -/
def candidateOf (enabled : c.State → c.Transition → Bool) (trigger : ChartTrigger)
    (leaf : c.State) : Option (c.State × c.Transition) :=
  (c.chain c.stateCount leaf).findSome? fun source =>
    ((c.transitionIndices source).find? fun t =>
      matchesTrigger (c.transitions t) trigger && enabled leaf t).map fun t => (source, t)

/-- The loop of `cflow_statechart_instance_select_internal` over the active leaves; a transition
found from several of them is filtered once. -/
def selectFrom (bits : c.Bits) (enabled : c.State → c.Transition → Bool) (trigger : ChartTrigger) :
    List c.State → List c.Transition → List c.Selected → List c.Selected
  | [], _, selected => selected
  | leaf :: rest, seen, selected =>
    match candidateOf enabled trigger leaf with
    | none => selectFrom bits enabled trigger rest seen selected
    | some (source, t) =>
      if t ∈ seen then selectFrom bits enabled trigger rest seen selected
      else selectFrom bits enabled trigger rest (t :: seen)
        (filterCandidate selected ⟨t, source, computeExitSet bits t⟩)

def selectTransitions (bits : c.Bits) (enabled : c.State → c.Transition → Bool)
    (trigger : ChartTrigger) : List c.Selected :=
  selectFrom bits enabled trigger ((c.activeStates bits).filter fun s => (c.kind s).leaf) [] []

end Select

section Target

def exitUnion (selected : List c.Selected) : c.Bits := fun s => selected.any fun t => t.exits s

def saveAffectedHistory (bits exits : c.Bits) (h : c.HistoryBuffer) : c.HistoryBuffer :=
  let saved := fun history parent => (c.activeStates bits).filter fun state =>
    if c.kind history = .historyShallow then
      decide (c.parents state = some parent) && c.real state
    else (c.kind state).leaf && c.isProperDescendant state parent
  let affected := fun history => (c.kind history).history &&
    (c.parents history).any fun parent => exits parent
  { bits := fun history state =>
      if affected history then
        (c.parents history).any fun parent => decide (state ∈ saved history parent)
      else h.bits history state
    counts := fun history =>
      if affected history then
        ((c.parents history).map fun parent => (saved history parent).length).getD 0
      else h.counts history }

def EntryWork.enterSelected (h : c.HistoryBuffer) :
    List c.Transition → c.EntryWork → Option c.EntryWork
  | [], w => some w
  | t :: rest, w =>
    (EntryWork.enterTargets h true (c.transitionTargets t) w).bind fun w =>
      enterSelected h rest w

/-- `build_target_configuration`; `none` stands for INVALID_CONFIGURATION. -/
def buildTargetConfiguration (bits exits : c.Bits) (h : c.HistoryBuffer)
    (request : List c.Transition) : Option c.EntryWork :=
  ((EntryWork.enterSelected h request { bits := fun s => bits s && !exits s }).bind
    (EntryWork.enterDefaultDescendants h c.stateCount)).filter fun w =>
      c.validateDenseConfiguration w.bits (c.activeStates w.bits) == .ok

end Target

structure ChartMemory (c : ChartImpl) where
  bits : c.Bits
  history : c.HistoryBuffer := {}

inductive MicrostepResult (c : ChartImpl) where
  | unhandled
  | invalidConfiguration
  | moved (s : ChartMemory c)

def microstep (s : ChartMemory c) (trigger : ChartTrigger)
    (enabled : c.State → c.Transition → Bool) : MicrostepResult c :=
  let selected := selectTransitions s.bits enabled trigger
  if selected = [] then .unhandled
  else
    let exits := exitUnion selected
    let history := saveAffectedHistory s.bits exits s.history
    match buildTargetConfiguration s.bits exits history (selected.map (·.transition)) with
    | none => .invalidConfiguration
    | some w => .moved { bits := w.bits, history := history }

structure ChartInput (c : ChartImpl) where
  trigger : ChartTrigger
  enabled : c.State → c.Transition → Bool

def chartStep (s : ChartMemory c) (a : ChartInput c) : Option (ChartMemory c) :=
  match microstep s a.trigger a.enabled with
  | .moved t => some t
  | _ => none

def EntryWork.todo (w : c.EntryWork) : Finset c.State :=
  Finset.univ.filter fun x => w.bits x = false ∨ x ∈ w.stack

end ChartImpl

end Salts.CFlow
