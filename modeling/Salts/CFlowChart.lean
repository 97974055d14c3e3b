import Mathlib.Data.List.Sort
import Mathlib.Data.Fintype.Basic

/-!
Building a statechart: a definition is copied, sorted by id, checked and turned into dense tables
(`cflow_statechart_build`, `cflow_statechart_build_v2`).  A state is addressed by its place among
the states sorted by id, a missing index is `none`.  The size limits, value types and effect
contracts that the build checks besides are left out: they only reject more definitions.
A single target that names no state stays in its span as an index of no state; what is then read
outside the arrays is taken to be no pseudo-state.
-/

namespace Salts.CFlow

open List (finRange)

inductive StateKind where
  | atomic
  | compound
  | parallel
  | initial
  | final
  | historyShallow
  | historyDeep
  deriving DecidableEq

inductive TriggerKind where
  | eventless
  | event
  | completion
  deriving DecidableEq

inductive ChartTransitionKind where
  | external
  | internal
  deriving DecidableEq

inductive StateActionKind where
  | entry
  | exit
  deriving DecidableEq

inductive ChartStatus where
  | empty
  | invalidId
  | duplicateId
  | duplicateOrder
  | invalidContract
  | invalidParent
  | invalidTree
  | invalidStateKind
  | invalidInitial
  | invalidHistory
  | invalidTrigger
  | invalidCompletion
  | unknownState
  | unknownEvent
  | unknownGuard
  | unknownExecutable
  | unknownTransition
  | ambiguousTransition
  | unusedDeclaration
  deriving DecidableEq

structure ChartState where
  id : Nat
  parent : Nat
  kind : StateKind
  documentOrder : Nat

structure ChartTransition where
  id : Nat
  source : Nat
  trigger : TriggerKind
  event : Nat
  completion : Nat
  guard : Nat
  target : Nat
  kind : ChartTransitionKind
  priority : Nat
  documentOrder : Nat

structure StateAction where
  state : Nat
  kind : StateActionKind
  executable : Nat
  order : Nat

structure TransitionAction where
  transition : Nat
  executable : Nat
  order : Nat

structure TransitionTarget where
  transition : Nat
  target : Nat
  order : Nat

/-- The rows of a definition; without `transitionTargets` it is one of the single-target build. -/
structure ChartDefinition where
  states : List ChartState
  events : List Nat := []
  guards : List Nat := []
  executables : List Nat := []
  transitions : List ChartTransition
  stateActions : List StateAction := []
  transitionActions : List TransitionAction := []
  transitionTargets : List TransitionTarget := []

def keyLe : List Nat → List Nat → Bool
  | [], _ => true
  | _ :: _, [] => false
  | a :: as, b :: bs => if a < b then true else if b < a then false else keyLe as bs

def sortedBy {α : Type} (key : α → List Nat) (rows : List α) : List α :=
  rows.insertionSort fun a b => keyLe (key a) (key b) = true

def StateKind.pseudo : StateKind → Bool
  | .initial | .historyShallow | .historyDeep => true
  | _ => false

def StateKind.history : StateKind → Bool
  | .historyShallow | .historyDeep => true
  | _ => false

def StateKind.leaf : StateKind → Bool
  | .atomic | .final => true
  | _ => false

def StateKind.canComplete : StateKind → Bool
  | .compound | .parallel => true
  | _ => false

def TriggerKind.code : TriggerKind → Nat
  | .eventless => 0
  | .event => 1
  | .completion => 2

def StateActionKind.code : StateActionKind → Nat
  | .entry => 0
  | .exit => 1

/-- A zero or repeated id among sorted ids; the second occurrence is found first. -/
def idError : List Nat → Option ChartStatus
  | [] => none
  | [id] => if id = 0 then some .invalidId else none
  | id :: next :: ids =>
    if id = 0 then some .invalidId
    else if next = 0 then some .invalidId
    else if id = next then some .duplicateId
    else idError (next :: ids)

def repeats {α : Type} [DecidableEq α] : List α → Bool
  | a :: b :: rows => decide (a = b) || repeats (b :: rows)
  | _ => false

/-- The colours of the walk that looks for cycles: not seen, on the present walk, finished. -/
inductive WalkColor where
  | white
  | grey
  | black
  deriving DecidableEq

section Tree

variable {n : Nat}

def findStateIndex (states : Fin n → ChartState) (id : Nat) : Option (Fin n) :=
  (finRange n).find? fun i => (states i).id == id

/-- Walks up while the states are white; the last one pushed is the first of the list. -/
def walkUp (parents : Fin n → Option (Fin n)) :
    Nat → (Fin n → WalkColor) → List (Fin n) → Option (Fin n) →
      (Fin n → WalkColor) × List (Fin n) × Option (Fin n)
  | fuel + 1, colors, stack, some current =>
    if colors current = .white then
      walkUp parents fuel (Function.update colors current .grey) (current :: stack)
        (parents current)
    else (colors, stack, some current)
  | _, colors, stack, current => (colors, stack, current)

/-- Gives the states of the stack their depths, from the one closest to the root. -/
def unwind (parents : Fin n → Option (Fin n)) :
    List (Fin n) → (Fin n → WalkColor) × (Fin n → Nat) → (Fin n → WalkColor) × (Fin n → Nat)
  | [], w => w
  | node :: stack, (colors, depths) =>
    let depth := match parents node with
      | none => 0
      | some parent => depths parent + 1
    unwind parents stack
      (Function.update colors node .black, Function.update depths node depth)

/-- The loop of `initialize_tree` over the states; `none` when a walk meets itself. -/
def walkAll (parents : Fin n → Option (Fin n)) :
    List (Fin n) → (Fin n → WalkColor) × (Fin n → Nat) →
      Option ((Fin n → WalkColor) × (Fin n → Nat))
  | [], w => some w
  | index :: rest, (colors, depths) =>
    if colors index = .black then walkAll parents rest (colors, depths)
    else
      let w := walkUp parents n colors [] (some index)
      if w.2.2.any (fun current => decide (w.1 current ≠ .black)) then none
      else walkAll parents rest (unwind parents w.2.1 (w.1, depths))

end Tree

structure ChartTree where
  stateCount : Nat
  states : Fin stateCount → ChartState
  parents : Fin stateCount → Option (Fin stateCount)
  depths : Fin stateCount → Nat
  root : Fin stateCount

def initializeTree (rows : List ChartState) : Except ChartStatus ChartTree :=
  let states := fun i : Fin rows.length => rows.get i
  let parents := fun i : Fin rows.length =>
    if (states i).parent = 0 then none else findStateIndex states (states i).parent
  let roots := (finRange rows.length).filter fun i => decide ((states i).parent = 0)
  if (finRange rows.length).any fun i =>
      decide ((states i).parent ≠ 0) && (parents i).isNone then .error .invalidParent
  else match roots with
    | [root] =>
      if (states root).kind ≠ .final ∧ (states root).kind.canComplete = false then
        .error .invalidTree
      else match walkAll parents (finRange rows.length) (fun _ => .white, fun _ => 0) with
        | none => .error .invalidTree
        | some w => .ok ⟨rows.length, states, parents, w.2, root⟩
    | _ => .error .invalidTree

namespace ChartTree

variable (c : ChartTree)

abbrev Index : Type := Fin c.stateCount

def kind (s : c.Index) : StateKind := (c.states s).kind

/-- The states from one up to the root, as the loops over `parents` visit them. -/
def chain : Nat → c.Index → List c.Index
  | 0, s => [s]
  | fuel + 1, s => s :: match c.parents s with
    | none => []
    | some p => chain fuel p

def isDescendant (node ancestor : c.Index) : Bool :=
  decide (ancestor ∈ c.chain c.stateCount node)

def isProperDescendant (node ancestor : c.Index) : Bool :=
  decide (node ≠ ancestor) && c.isDescendant node ancestor

/-- `normalize_document_order`. -/
def documentOrderIndices : List c.Index :=
  sortedBy (fun i => [(c.states i).documentOrder, i]) (finRange c.stateCount)

def children (s : c.Index) : List c.Index :=
  c.documentOrderIndices.filter fun i => decide (c.parents i = some s)

def preorderFrom : (Nat → Option c.Index) → Nat → List c.Index → Bool
  | _, _, [] => true
  | path, previous, state :: rest =>
    let depth := c.depths state
    if depth = 0 ∨ (previous < depth ∧ 1 < depth - previous) ∨
        path (depth - 1) ≠ c.parents state then false
    else
      preorderFrom
        (fun k => if k = depth then some state
          else if depth < k ∧ k ≤ previous then none else path k)
        depth rest

def documentPreorder : Bool :=
  match c.documentOrderIndices with
  | [] => true
  | state :: rest =>
    decide (state = c.root ∧ c.depths state = 0) &&
      c.preorderFrom (fun k => if k = 0 then some state else none) 0 rest

def parentError (s : c.Index) : Option ChartStatus :=
  match c.parents s with
  | none => none
  | some p =>
    if c.kind s = .initial ∧ c.kind p ≠ .compound then some .invalidInitial
    else if (c.kind s).history = true ∧ (c.kind p).canComplete = false then some .invalidHistory
    else none

def realChildren (s : c.Index) : List c.Index :=
  (c.children s).filter fun i => !(c.kind i).pseudo

def initialChildren (s : c.Index) : List c.Index :=
  (c.children s).filter fun i => decide (c.kind i = .initial)

def childError (s : c.Index) : Option ChartStatus :=
  match c.kind s with
  | .compound =>
    if c.realChildren s = [] ∨ (c.initialChildren s).length ≠ 1 then some .invalidInitial else none
  | .parallel =>
    if c.realChildren s = [] ∨ c.initialChildren s ≠ [] then some .invalidInitial else none
  | _ => if c.children s ≠ [] then some .invalidStateKind else none

/-- `validate_child_kinds`. -/
def childKindError : Option ChartStatus :=
  (finRange c.stateCount).findSome? c.parentError <|>
    (finRange c.stateCount).findSome? c.childError

end ChartTree

/-- The tree with its transitions sorted by id and the targets of each in order. -/
structure ChartTables extends ChartTree where
  transitionCount : Nat
  transitions : Fin transitionCount → ChartTransition
  transitionTargets : Fin transitionCount → List (Fin stateCount)

/-- The targets of one transition from its rows, which are sorted by order. -/
def targetRows (c : ChartTree) (rows : List TransitionTarget) : Except ChartStatus (List c.Index) :=
  let targets := rows.map fun row => findStateIndex c.states row.target
  if rows.any fun row => decide (row.target = 0) then .error .invalidId
  else if repeats (rows.map (·.order)) then .error .duplicateOrder
  else if targets.any Option.isNone then .error .unknownState
  else if ¬(targets.filterMap id).Nodup then .error .duplicateId
  else .ok (targets.filterMap id)

/-- `normalize_transition_targets`: the rows are sorted like the transitions and used up with them.
Only the targets of rows must name states. -/
def transitionTargetSpans (c : ChartTree) : List ChartTransition → List TransitionTarget →
    Except ChartStatus (List (List c.Index))
  | [], [] => .ok []
  | [], _ :: _ => .error .unknownTransition
  | t :: ts, rows =>
    if rows.head?.any fun row => decide (row.transition < t.id) then .error .unknownTransition
    else
      let own := rows.takeWhile fun row => row.transition == t.id
      let rest := rows.dropWhile fun row => row.transition == t.id
      match targetRows c own with
      | .error e => .error e
      | .ok targets =>
        if own ≠ [] ∧ t.target ≠ 0 then .error .invalidContract
        else
          let legacy := if t.target = 0 then [] else (findStateIndex c.states t.target).toList
          match transitionTargetSpans c ts rest with
          | .error e => .error e
          | .ok spans => .ok ((if own = [] then legacy else targets) :: spans)

namespace ChartTables

variable (c : ChartTables)

def source (t : Fin c.transitionCount) : Option c.Index :=
  findStateIndex c.states (c.transitions t).source

/-- The span of the transition holds `SIZE_MAX`, the index of a single target that names no state. -/
def strayTarget (t : Fin c.transitionCount) : Bool :=
  decide ((c.transitions t).target ≠ 0) &&
    (findStateIndex c.states (c.transitions t).target).isNone

def targetless (t : Fin c.transitionCount) : Bool :=
  decide (c.transitionTargets t = []) && !c.strayTarget t

def targetsDescendFrom (t : Fin c.transitionCount) (ancestor : c.Index) : Bool :=
  !c.strayTarget t &&
    (c.transitionTargets t).all fun target => c.isProperDescendant target ancestor

def properLeastCommonCompoundAncestor (source : c.Index) (t : Fin c.transitionCount) :
    Option c.Index :=
  (c.chain c.stateCount source).tail.find? fun ancestor =>
    decide (c.kind ancestor = .compound) && c.targetsDescendFrom t ancestor

/-- `validate_transition_trigger`. -/
def triggerError (events : List Nat) (t : ChartTransition) : Option ChartStatus :=
  match t.trigger with
  | .eventless => if t.event = 0 ∧ t.completion = 0 then none else some .invalidTrigger
  | .event =>
    if t.event = 0 ∨ t.completion ≠ 0 then some .invalidTrigger
    else if t.event ∈ events then none else some .unknownEvent
  | .completion =>
    if t.event ≠ 0 ∨ t.completion = 0 then some .invalidTrigger
    else if (findStateIndex c.states t.completion).any fun s => (c.kind s).canComplete then none
    else some .invalidCompletion

def transitionError (d : ChartDefinition) (i : Fin c.transitionCount) : Option ChartStatus :=
  let t := c.transitions i
  if t.source = 0 then some .invalidId
  else match c.source i with
    | none => some .unknownState
    | some source =>
      if (c.transitionTargets i).any fun target => decide (c.kind target = .initial) then
        some .invalidInitial
      else if c.kind source = .final then some .invalidStateKind
      else match c.triggerError d.events t with
        | some e => some e
        | none => if t.guard ≠ 0 ∧ t.guard ∉ d.guards then some .unknownGuard else none

def pseudoStatus (s : c.Index) : ChartStatus :=
  if c.kind s = .initial then .invalidInitial else .invalidHistory

/-- A target a default transition may have: a real state below the parent of its pseudo-state, or,
alone and from an initial state, a history of that parent. -/
def defaultTarget (source parent : c.Index) (targets : List c.Index) (target : c.Index) : Bool :=
  (!(c.kind target).pseudo && c.isProperDescendant target parent) ||
    (decide (c.kind source = .initial) && decide (targets.length = 1) && (c.kind target).history &&
      decide (c.parents target = some parent))

def defaultError (i : Fin c.transitionCount) : Option ChartStatus :=
  match c.source i with
  | none => none
  | some source =>
    if (c.kind source).pseudo = false then none
    else match c.parents source with
      | none => some (c.pseudoStatus source)
      | some parent =>
        let t := c.transitions i
        let targets := c.transitionTargets i
        if t.trigger ≠ .eventless ∨ t.event ≠ 0 ∨ t.completion ≠ 0 ∨ t.guard ≠ 0 ∨
            c.targetless i = true ∨ t.kind ≠ .external then some (c.pseudoStatus source)
        else if !c.strayTarget i && targets.all (c.defaultTarget source parent targets) then none
        else some (c.pseudoStatus source)

/-- The transitions of a state as its span has them (`normalize_transitions`). -/
def transitionIndices (s : c.Index) : List (Fin c.transitionCount) :=
  sortedBy
    (fun i =>
      let t := c.transitions i
      [t.trigger.code, match t.trigger with
        | .eventless => 0
        | .event => t.event
        | .completion => t.completion, t.priority, t.documentOrder, i])
    ((finRange c.transitionCount).filter fun i => decide (c.source i = some s))

def defaultCountError (s : c.Index) : Option ChartStatus :=
  if (c.kind s).pseudo = true ∧ (c.transitionIndices s).length ≠ 1 then some (c.pseudoStatus s)
  else none

def transitionKeys : List (List Nat) :=
  (finRange c.transitionCount).map fun i =>
    let t := c.transitions i
    [t.source, t.trigger.code, match t.trigger with
      | .eventless => 0
      | .event => t.event
      | .completion => t.completion, t.priority]

/-- `validate_transitions`. -/
def transitionsError (d : ChartDefinition) : Option ChartStatus :=
  (finRange c.transitionCount).findSome? (c.transitionError d) <|>
    (finRange c.transitionCount).findSome? c.defaultError <|>
    (finRange c.stateCount).findSome? c.defaultCountError <|>
    if repeats (sortedBy id c.transitionKeys) then some .ambiguousTransition else none

def stateActionError (d : ChartDefinition) (row : StateAction) : Option ChartStatus :=
  match findStateIndex c.states row.state with
  | none => some .unknownState
  | some s =>
    if (c.kind s).pseudo then some .invalidStateKind
    else if row.executable ∉ d.executables then some .unknownExecutable else none

def transitionActionError (d : ChartDefinition) (row : TransitionAction) : Option ChartStatus :=
  if (finRange c.transitionCount).all fun i => decide ((c.transitions i).id ≠ row.transition)
  then some .unknownTransition
  else if row.executable ∉ d.executables then some .unknownExecutable else none

/-- `validate_action_rows`. -/
def actionsError (d : ChartDefinition) : Option ChartStatus :=
  let states := sortedBy (fun row => [row.state, row.kind.code, row.order, row.executable])
    d.stateActions
  let transitions := sortedBy (fun row => [row.transition, row.order, row.executable])
    d.transitionActions
  states.findSome? (c.stateActionError d) <|>
    (if repeats (states.map fun row => [row.state, row.kind.code, row.order]) then
      some .duplicateOrder else none) <|>
    transitions.findSome? (c.transitionActionError d) <|>
    if repeats (transitions.map fun row => [row.transition, row.order]) then
      some .duplicateOrder else none

end ChartTables

/-- `validate_declaration_use`. -/
def ChartDefinition.declarationsError (d : ChartDefinition) : Option ChartStatus :=
  let guardUsed := fun g => d.transitions.any fun t => t.guard == g
  let executableUsed := fun e => (d.stateActions.any fun row => row.executable == e) ||
    d.transitionActions.any fun row => row.executable == e
  if d.guards.all guardUsed && d.executables.all executableUsed then none
  else some .unusedDeclaration

structure ChartImpl extends ChartTables where
  transitionDomains : Fin transitionCount → Option (Fin stateCount)
  defaultTransitionIndices : Fin stateCount → Option (Fin transitionCount)
  stateActions : Fin stateCount → StateActionKind → List Nat
  transitionActions : Fin transitionCount → List Nat

def normalizeStatechart (c : ChartTables) (d : ChartDefinition) : ChartImpl :=
  { c with
    transitionDomains := fun i =>
      (c.source i).bind fun source =>
        if c.targetless i then none
        else if (c.transitions i).kind = .internal ∧ c.kind source = .compound ∧
            c.targetsDescendFrom i source = true then some source
        else c.properLeastCommonCompoundAncestor source i
    -- the last transition of a pseudo-state stands in its slot
    defaultTransitionIndices := fun s =>
      if (c.kind s).pseudo then
        ((finRange c.transitionCount).filter fun i => decide (c.source i = some s)).getLast?
      else none
    stateActions := fun s kind =>
      (sortedBy (fun row => [row.order, row.executable])
        (d.stateActions.filter fun row =>
          decide (row.state = (c.states s).id ∧ row.kind = kind))).map (·.executable)
    transitionActions := fun i =>
      (sortedBy (fun row => [row.order, row.executable])
        (d.transitionActions.filter fun row =>
          decide (row.transition = (c.transitions i).id))).map (·.executable) }

def chartTables (d : ChartDefinition) : Except ChartStatus ChartTables :=
  let states := sortedBy (fun s => [s.id]) d.states
  let transitions := sortedBy (fun t => [t.id]) d.transitions
  if d.states = [] then .error .empty
  else match idError (states.map (·.id)) <|> idError (transitions.map (·.id)) with
    | some e => .error e
    | none =>
      if repeats ((states.map (·.documentOrder)).insertionSort (· ≤ ·)) ||
          repeats ((transitions.map (·.documentOrder)).insertionSort (· ≤ ·)) then
        .error .duplicateOrder
      else match initializeTree states with
        | .error e => .error e
        | .ok tree =>
          if tree.documentPreorder = false then .error .invalidTree
          else match tree.childKindError with
            | some e => .error e
            | none =>
              match transitionTargetSpans tree transitions
                  (sortedBy (fun row => [row.transition, row.order, row.target])
                    d.transitionTargets) with
              | .error e => .error e
              | .ok spans =>
                .ok { tree with
                  transitionCount := transitions.length
                  transitions := fun i => transitions.get i
                  transitionTargets := fun i => spans.getD i [] }

def ChartTables.error (c : ChartTables) (d : ChartDefinition) : Option ChartStatus :=
  idError (sortedBy (fun id => [id]) d.events) <|> idError (sortedBy (fun id => [id]) d.guards) <|>
    idError (sortedBy (fun id => [id]) d.executables) <|> c.transitionsError d <|>
    c.actionsError d <|> d.declarationsError

/-- `cflow_statechart_build_v2`; without target rows it is `cflow_statechart_build`. -/
def buildStatechart (d : ChartDefinition) : Except ChartStatus ChartImpl :=
  match chartTables d with
  | .error e => .error e
  | .ok c =>
    match c.error d with
    | some e => .error e
    | none => .ok (normalizeStatechart c d)

def ChartDefinition.SingleTarget (d : ChartDefinition) : Prop := d.transitionTargets = []

def ChartDefinition.TargetsNamed (d : ChartDefinition) : Prop :=
  ∀ t ∈ d.transitions, t.target ≠ 0 → ∃ s ∈ d.states, s.id = t.target

instance (d : ChartDefinition) : Decidable d.TargetsNamed :=
  inferInstanceAs (Decidable (∀ t ∈ d.transitions, t.target ≠ 0 → ∃ s ∈ d.states, s.id = t.target))

end Salts.CFlow
