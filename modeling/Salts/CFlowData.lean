import Mathlib.Data.List.Sort
import Salts.CFlowRunState

/-!
The operators of a subgraph (`operators.h`, `graph.h`) along the one path its edges form.  Values of
all types are values of one type `α`, a callable that reports a failure returns `none`.
-/

namespace Salts.CFlow

/-- `cmeta_callable`: its function, with a result that depends only on the argument, the contract it
declares, and `target`, which is equal for callables that `cmeta_callable_same` calls the same. -/
structure Callable (β γ : Type) where
  invoke : β → Option γ
  pure : Bool := false
  deterministic : Bool := false
  total : Bool := false
  idempotent : Bool := false
  noAlias : Bool := false
  associative : Bool := false
  target : Nat := 0

/-- What follows the last value of a generator: a DONE of its own, nothing because the last value
came as VALUE_AND_DONE, or an ERROR. -/
inductive GenEnd where
  | done
  | last
  | error
  deriving DecidableEq

/-- What the calls of a generator on one input return from its cursor on. -/
structure Generation (α : Type) where
  values : List α
  ending : GenEnd := .done

/-- `cmeta_callable_generate` with the status of `generator_resume_machine`. -/
def Generation.resume {α : Type} (g : Generation α) : Generation α × Step α :=
  match g.values with
  | [] => (g, if g.ending = .error then .error (some "generator returned error") else .done)
  | v :: rest =>
    ({ g with values := rest },
      if rest.isEmpty ∧ g.ending = .last then .valueAndDone v else .value v)

/-- Operators that hand a value on within one call: FILTER, and MAP and TRANSFORM with their chain
of callables. -/
inductive Inline (α : Type) where
  | filter (fn : Callable α Bool)
  | map (chain : List (Callable α α))
  | transform (chain : List (Callable α α))

/-- Operators with a state of their own or a continuation; `ρ` describes a RELATION. -/
inductive StageOp (α ρ : Type) where
  | take (limit : Nat)
  | skip (count : Nat)
  | distinct (maxUnique : Nat)
  | sorted (maxElements : Nat)
  | reduce (fn : Callable (α × α) α) (seed : Option α)
  | flatMap (fn : Callable α (Generation α))
  | relation (r : ρ)

/-- A stage of the path with its physical node id and the inline operators behind it. -/
structure Stage (α ρ : Type) where
  id : Nat
  op : StageOp α ρ
  after : List (Inline α) := []

structure Path (α ρ : Type) where
  lead : List (Inline α) := []
  stages : List (Stage α ρ) := []

inductive NodeAction (α : Type) where
  | cont (v : α)
  | stop
  | fail (status : Status) (message : String)

def operatorFailed : String := "operator semantic failed"

variable {α ρ : Type}

def invokeChain : List (Callable α α) → α → Option α
  | [], v => some v
  | fn :: chain, v => (fn.invoke v).bind (invokeChain chain)

def semanticMap (chain : List (Callable α α)) (v : α) : NodeAction α :=
  match invokeChain chain v with
  | some w => .cont w
  | none => .fail .executionError operatorFailed

def semanticFilter (fn : Callable α Bool) (v : α) : NodeAction α :=
  match fn.invoke v with
  | some true => .cont v
  | some false => .stop
  | none => .fail .executionError operatorFailed

def Inline.handle : Inline α → α → NodeAction α
  | .filter fn => semanticFilter fn
  | .map chain => semanticMap chain
  | .transform chain => semanticMap chain

def runInline : List (Inline α) → α → NodeAction α
  | [], v => .cont v
  | op :: ops, v =>
    match op.handle v with
    | .cont w => runInline ops w
    | .stop => .stop
    | .fail status message => .fail status message

def Callable.generate (fn : Callable α (Generation α)) (v : α) : Generation α :=
  (fn.invoke v).getD { values := [], ending := .error }

/-- The backends of DISTINCT and SORTED: the equality of the set and the order of the sort. -/
structure EvalOptions (α : Type) where
  same : α → α → Bool
  le : α → α → Bool

def EvalOptions.sort (o : EvalOptions α) (l : List α) : List α :=
  l.insertionSort fun a b => o.le a b = true

def StageOp.isSorted : StageOp α ρ → Bool
  | .sorted _ => true
  | _ => false

def StageOp.takesNothing : StageOp α ρ → Bool
  | .take 0 => true
  | _ => false

def Path.Ordered (p : Path α ρ) : Prop := (p.stages.map Stage.id).Pairwise (· < ·)

instance (p : Path α ρ) : Decidable p.Ordered :=
  inferInstanceAs (Decidable (List.Pairwise _ _))

/-!
### The data plane

REDUCE and SORTED are flushed when the source is done; which of them is next, and which SORTED a
full TAKE cuts off, is decided by comparing physical node ids.
-/

def maxContinuations : Nat := 64

/-- A publisher as the pump uses it, with what happens to it on other threads. -/
structure SourceOps (σ α ε : Type) where
  resume : σ → Nat → σ × Step α
  poll : σ → Terminal
  cancel : σ → σ
  event : σ → ε → σ

structure RelationOps (α ρ μ : Type) where
  start : ρ → α → Option μ
  resume : μ → Nat → μ × Step α
  cancel : μ → μ

/-- The entries of the arrays of `run_impl` at one node: `count` of `slice_counts`, `seen` of
`set_states`, `items` and its flags of the sequence arrays (once `started`, `items` is what the
cursor has not reached), `value` of `reduce_value`. -/
structure Slot (α : Type) where
  count : Nat := 0
  seen : List α := []
  items : List α := []
  started : Bool := false
  flushed : Bool := false
  value : Option α := none
  reduceFlushed : Bool := false

inductive Machine (α μ : Type) where
  | generator (g : Generation α)
  | relation (m : μ)

/-- `continuation_frame`; `position` is the place of its node on the path. -/
structure Frame (α μ : Type) where
  position : Nat
  machine : Machine α μ
  done : Bool := false

/-- The state of the data plane.  `slots` are indexed by the place on the path, the head of `frames`
is the top of the stack. -/
structure GraphState (σ α μ : Type) where
  source : σ
  sourceDone : Bool := false
  slots : Nat → Slot α
  frames : List (Frame α μ) := []

/-- What `process_path` ends with: the value has stopped at a node, has reached the sink, or a node
has failed. -/
inductive PathEnd (α : Type) where
  | stopped
  | emitted (v : α)
  | failed (status : Status) (message : String)

structure GraphRun (σ α ρ μ ε : Type) where
  path : Path α ρ
  options : EvalOptions α
  sources : SourceOps σ α ε
  relations : RelationOps α ρ μ

namespace GraphRun

variable {σ α ρ μ ε : Type}

def initialSlot : StageOp α ρ → Slot α
  | .reduce _ seed => { value := seed }
  | _ => {}

def subscribe (g : GraphRun σ α ρ μ ε) (source : σ) : GraphState σ α μ :=
  let nothing := g.path.stages.any fun st => st.op.takesNothing
  { source := if nothing then g.sources.cancel source else source
    sourceDone := nothing
    slots := fun k => (g.path.stages[k]?.map fun st => initialSlot st.op).getD {} }

def pending (op : StageOp α ρ) (s : Slot α) : Bool :=
  match op with
  | .reduce _ _ => s.value.isSome && !s.reduceFlushed
  | .sorted _ => !s.flushed
  | _ => false

def after (g : GraphRun σ α ρ μ ε) (k : Nat) : List (Inline α) :=
  (g.path.stages[k]?.map Stage.after).getD []

def byId (g : GraphRun σ α ρ μ ε) : List Nat :=
  (List.range g.path.stages.length).insertionSort fun i j =>
    (g.path.stages[i]?.map Stage.id).getD 0 ≤ (g.path.stages[j]?.map Stage.id).getD 0

end GraphRun

namespace Machine

variable {σ α ρ μ ε : Type}

def resume (r : RelationOps α ρ μ) (demand : Nat) : Machine α μ → Machine α μ × Step α
  | .generator g => (.generator g.resume.1, g.resume.2)
  | .relation m => (.relation (r.resume m demand).1, (r.resume m demand).2)

def cancel (r : RelationOps α ρ μ) : Machine α μ → Machine α μ
  | .generator g => .generator g
  | .relation m => .relation (r.cancel m)

end Machine

def Frame.stop {α ρ μ : Type} (r : RelationOps α ρ μ) (f : Frame α μ) : Frame α μ :=
  { f with machine := if f.done then f.machine else f.machine.cancel r, done := true }

namespace GraphState

variable {σ α ρ μ ε : Type} (g : GraphRun σ α ρ μ ε)

def setSlot (d : GraphState σ α μ) (k : Nat) (s : Slot α) : GraphState σ α μ :=
  { d with slots := Function.update d.slots k s }

/-- `short_circuit_before_current_node`. -/
def shortCircuit (d : GraphState σ α μ) (current : Nat) : GraphState σ α μ :=
  { source := if d.sourceDone then d.source else g.sources.cancel d.source
    sourceDone := true
    frames := d.frames.map (Frame.stop g.relations)
    slots := fun k =>
      match g.path.stages[k]? with
      | some st =>
        if st.op.isSorted && decide (st.id < current) then { d.slots k with flushed := true }
        else d.slots k
      | none => d.slots k }

/-- `push_continuation`. -/
def push (d : GraphState σ α μ) (k : Nat) (m : Machine α μ) : GraphState σ α μ :=
  { d with frames := { position := k, machine := m } :: d.frames }

/-- The handlers `semantic_take` to `semantic_relation` of the node at `k`. -/
def semantic (d : GraphState σ α μ) (k : Nat) (st : Stage α ρ) (v : α) :
    GraphState σ α μ × NodeAction α :=
  let s := d.slots k
  match st.op with
  | .take limit =>
    if limit ≤ s.count then (d, .stop)
    else
      let d' := d.setSlot k { s with count := s.count + 1 }
      (if s.count + 1 = limit then d'.shortCircuit g st.id else d', .cont v)
  | .skip count =>
    if s.count < count then (d.setSlot k { s with count := s.count + 1 }, .stop) else (d, .cont v)
  | .distinct maxUnique =>
    if s.seen.any (g.options.same v) then (d, .stop)
    else if maxUnique ≤ s.seen.length then
      (d, .fail .capacityExceeded "distinct capacity exceeded")
    else (d.setSlot k { s with seen := s.seen ++ [v] }, .cont v)
  | .sorted maxElements =>
    if maxElements ≤ s.items.length then (d, .fail .capacityExceeded "sorted capacity exceeded")
    else (d.setSlot k { s with items := s.items ++ [v] }, .stop)
  | .reduce fn _ =>
    match s.value with
    | none => (d.setSlot k { s with value := some v }, .stop)
    | some a =>
      match fn.invoke (a, v) with
      | some b => (d.setSlot k { s with value := some b }, .stop)
      | none => (d, .fail .executionError operatorFailed)
  | .flatMap fn =>
    if maxContinuations ≤ d.frames.length then (d, .fail .executionError operatorFailed)
    else (d.push k (.generator (fn.generate v)), .stop)
  | .relation r =>
    if maxContinuations ≤ d.frames.length then (d, .fail .executionError operatorFailed)
    else
      match g.relations.start r v with
      | some m => (d.push k (.relation m), .stop)
      | none => (d, .fail .executionError operatorFailed)

/-- The loop of `process_path` from the stage `k`, the first of `stages`, on. -/
def processPath (d : GraphState σ α μ) (k : Nat) :
    List (Stage α ρ) → α → GraphState σ α μ × PathEnd α
  | [], v => (d, .emitted v)
  | st :: stages, v =>
    match d.semantic g k st v with
    | (d', .cont w) =>
      match runInline st.after w with
      | .cont x => processPath d' (k + 1) stages x
      | .stop => (d', .stopped)
      | .fail status message => (d', .failed status message)
    | (d', .stop) => (d', .stopped)
    | (d', .fail status message) => (d', .failed status message)

def processFrom (d : GraphState σ α μ) (k : Nat) (ops : List (Inline α)) (v : α) :
    GraphState σ α μ × PathEnd α :=
  match runInline ops v with
  | .cont w => d.processPath g k (g.path.stages.drop k) w
  | .stop => (d, .stopped)
  | .fail status message => (d, .failed status message)

def unitResult (r : GraphState σ α μ × PathEnd α) : UnitResult (GraphState σ α μ) α :=
  match r.2 with
  | .stopped => .done r.1 true
  | .emitted v => .value r.1 v
  | .failed status message => .fail r.1 status message

def resumeTop (d : GraphState σ α μ) (demand : Nat) : UnitResult (GraphState σ α μ) α :=
  match d.frames with
  | [] => .done d true
  | f :: frames =>
    let r := f.machine.resume g.relations demand
    let next (done : Bool) : GraphState σ α μ :=
      { d with frames := { f with machine := r.1, done := done } :: frames }
    match r.2 with
    | .error message =>
      .fail (next f.done) .executionError (message.getD "operator resumable error")
    | .wait => .wait (next f.done)
    | .done => .done (next true) true
    | .value v => unitResult ((next f.done).processFrom g (f.position + 1) (g.after f.position) v)
    | .valueAndDone v =>
      unitResult ((next true).processFrom g (f.position + 1) (g.after f.position) v)

def terminalPredecessorsDone (d : GraphState σ α μ) (id : Nat) : Bool :=
  g.path.stages.zipIdx.all fun x => !(decide (x.1.id < id) && GraphRun.pending x.1.op (d.slots x.2))

def terminalNodesDone (d : GraphState σ α μ) : Bool :=
  g.path.stages.zipIdx.all fun x => !GraphRun.pending x.1.op (d.slots x.2)

def flushSortedValue (d : GraphState σ α μ) (k : Nat) : UnitResult (GraphState σ α μ) α :=
  let s := d.slots k
  let items := if s.started then s.items else g.options.sort s.items
  let next (rest : List α) : GraphState σ α μ :=
    d.setSlot k { s with items := rest, started := true }
  match items with
  | [] => .done (d.setSlot k { s with items := [], started := true, flushed := true }) true
  | v :: rest =>
    let r := (next rest).processFrom g (k + 1) (g.after k) v
    unitResult
      (if rest.isEmpty then r.1.setSlot k { r.1.slots k with flushed := true } else r.1, r.2)

def flushReduceValue (d : GraphState σ α μ) (k : Nat) (v : α) : UnitResult (GraphState σ α μ) α :=
  let r := (d.setSlot k { d.slots k with reduceFlushed := true }).processFrom g (k + 1) (g.after k) v
  unitResult (r.1.setSlot k { r.1.slots k with value := none }, r.2)

def flushOneTerminalNode (d : GraphState σ α μ) : UnitResult (GraphState σ α μ) α :=
  let next := g.byId.find? fun k =>
    match g.path.stages[k]? with
    | some st => d.terminalPredecessorsDone g st.id && GraphRun.pending st.op (d.slots k)
    | none => false
  match next with
  | none => .done d true
  | some k =>
    match g.path.stages[k]?.map Stage.op, (d.slots k).value with
    | some (.reduce _ _), some v => d.flushReduceValue g k v
    | _, _ => d.flushSortedValue g k

def processSourceStep (d : GraphState σ α μ) (demand : Nat) : UnitResult (GraphState σ α μ) α :=
  let r := g.sources.resume d.source demand
  let d' : GraphState σ α μ := { d with source := r.1 }
  match r.2 with
  | .value v => unitResult (d'.processFrom g 0 g.path.lead v)
  | .valueAndDone v =>
    unitResult (({ d' with sourceDone := true } : GraphState σ α μ).processFrom g 0 g.path.lead v)
  | .wait => .wait d'
  | .done => .done { d' with sourceDone := true } true
  | .error message => .fail d' .executionError (message.getD "source error")

def plane : Plane (GraphState σ α μ) α ε where
  topFrame d := d.frames.head?.map Frame.done
  sourceDone d := d.sourceDone
  nodesDone d := d.terminalNodesDone g
  poll d := g.sources.poll d.source
  popFrame d := { d with frames := d.frames.tail }
  markSourceDone d := { d with sourceDone := true }
  cancel d := { d with source := g.sources.cancel d.source, frames := [] }
  resumeTop d := d.resumeTop g
  flushNode d := d.flushOneTerminalNode g
  sourceStep d := d.processSourceStep g
  event d e := { d with source := g.sources.event d.source e }
  topFrame_event _ _ := rfl
  sourceDone_event _ _ := rfl
  nodesDone_event _ _ := rfl

end GraphState

/-! ### The list meaning of a path and of a state of its data plane -/

def distinctFrom (same : α → α → Bool) : List α → List α → List α
  | _, [] => []
  | seen, v :: xs =>
    if seen.any (same v) then distinctFrom same seen xs
    else v :: distinctFrom same (seen ++ [v]) xs

def reduceFrom (fn : Callable (α × α) α) : Option α → List α → Option α
  | acc, [] => acc
  | none, v :: xs => reduceFrom fn (some v) xs
  | some a, v :: xs => reduceFrom fn (some ((fn.invoke (a, v)).getD a)) xs

def ReduceSucceeds (fn : Callable (α × α) α) : Option α → List α → Prop
  | _, [] => True
  | none, v :: xs => ReduceSucceeds fn (some v) xs
  | some a, v :: xs =>
    (fn.invoke (a, v)).isSome = true ∧ ReduceSucceeds fn (some ((fn.invoke (a, v)).getD a)) xs

def NodeAction.passed : NodeAction α → Option α
  | .cont v => some v
  | _ => none

def NodeAction.failed : NodeAction α → Bool
  | .fail _ _ => true
  | _ => false

def inlineOut (ops : List (Inline α)) (xs : List α) : List α :=
  xs.filterMap fun x => (runInline ops x).passed

def InlineSucceeds (ops : List (Inline α)) (xs : List α) : Prop :=
  ∀ x ∈ xs, (runInline ops x).failed = false

def StageOp.denote (o : EvalOptions α) : StageOp α ρ → List α → List α
  | .take limit, xs => xs.take limit
  | .skip count, xs => xs.drop count
  | .distinct _, xs => distinctFrom o.same [] xs
  | .sorted _, xs => o.sort xs
  | .reduce fn seed, xs => (reduceFrom fn seed xs).toList
  | .flatMap fn, xs => xs.flatMap fun x => (fn.generate x).values
  | .relation _, _ => []

def StageOp.Succeeds (o : EvalOptions α) : StageOp α ρ → List α → Prop
  | .take _, _ => True
  | .skip _, _ => True
  | .distinct maxUnique, xs => (distinctFrom o.same [] xs).length ≤ maxUnique
  | .sorted maxElements, xs => xs.length ≤ maxElements
  | .reduce fn seed, xs => ReduceSucceeds fn seed xs
  | .flatMap fn, xs => ∀ x ∈ xs, (fn.generate x).ending ≠ .error
  | .relation _, _ => False

def denoteStages (o : EvalOptions α) : List (Stage α ρ) → List α → List α
  | [], xs => xs
  | st :: stages, xs => denoteStages o stages (inlineOut st.after (st.op.denote o xs))

def SucceedsStages (o : EvalOptions α) : List (Stage α ρ) → List α → Prop
  | [], _ => True
  | st :: stages, xs =>
    st.op.Succeeds o xs ∧ InlineSucceeds st.after (st.op.denote o xs) ∧
      SucceedsStages o stages (inlineOut st.after (st.op.denote o xs))

def Path.denote (o : EvalOptions α) (p : Path α ρ) (xs : List α) : List α :=
  denoteStages o p.stages (inlineOut p.lead xs)

def Path.Succeeds (o : EvalOptions α) (p : Path α ρ) (xs : List α) : Prop :=
  InlineSucceeds p.lead xs ∧ SucceedsStages o p.stages (inlineOut p.lead xs)

instance decidableReduceSucceeds (fn : Callable (α × α) α) :
    (acc : Option α) → (xs : List α) → Decidable (ReduceSucceeds fn acc xs)
  | _, [] => isTrue trivial
  | none, v :: xs => decidableReduceSucceeds fn (some v) xs
  | some a, v :: xs =>
    have := decidableReduceSucceeds fn (some ((fn.invoke (a, v)).getD a)) xs
    inferInstanceAs (Decidable (_ = true ∧ _))

instance (ops : List (Inline α)) (xs : List α) : Decidable (InlineSucceeds ops xs) :=
  inferInstanceAs (Decidable (∀ x ∈ xs, _ = false))

instance (o : EvalOptions α) : (op : StageOp α ρ) → (xs : List α) → Decidable (op.Succeeds o xs)
  | .take _, _ => isTrue trivial
  | .skip _, _ => isTrue trivial
  | .distinct _, _ => inferInstanceAs (Decidable (_ ≤ _))
  | .sorted _, _ => inferInstanceAs (Decidable (_ ≤ _))
  | .reduce fn seed, xs => decidableReduceSucceeds fn seed xs
  | .flatMap fn, xs => inferInstanceAs (Decidable (∀ x ∈ xs, (fn.generate x).ending ≠ .error))
  | .relation _, _ => isFalse id

instance decidableSucceedsStages (o : EvalOptions α) :
    (stages : List (Stage α ρ)) → (xs : List α) → Decidable (SucceedsStages o stages xs)
  | [], _ => isTrue trivial
  | st :: stages, xs =>
    have := decidableSucceedsStages o stages (inlineOut st.after (st.op.denote o xs))
    inferInstanceAs (Decidable (_ ∧ _ ∧ _))

instance (o : EvalOptions α) (p : Path α ρ) (xs : List α) : Decidable (p.Succeeds o xs) :=
  inferInstanceAs (Decidable (_ ∧ _))

def stageOut (o : EvalOptions α) (op : StageOp α ρ) (s : Slot α) (xs : List α) : List α :=
  match op with
  | .take limit => xs.take (limit - s.count)
  | .skip count => xs.drop (count - s.count)
  | .distinct _ => distinctFrom o.same s.seen xs
  | .sorted _ => if s.flushed then [] else if s.started then s.items else o.sort (s.items ++ xs)
  | .reduce fn _ => (reduceFrom fn s.value xs).toList
  | .flatMap fn => xs.flatMap fun x => (fn.generate x).values
  | .relation _ => []

def StageSucceeds (o : EvalOptions α) (op : StageOp α ρ) (s : Slot α) (xs : List α) : Prop :=
  match op with
  | .take _ => True
  | .skip _ => True
  | .distinct maxUnique => s.seen.length + (distinctFrom o.same s.seen xs).length ≤ maxUnique
  | .sorted maxElements =>
    s.flushed = false → s.started = false → s.items.length + xs.length ≤ maxElements
  | .reduce fn _ => ReduceSucceeds fn s.value xs
  | .flatMap fn => ∀ x ∈ xs, (fn.generate x).ending ≠ .error
  | .relation _ => False

theorem stageOut_initial (o : EvalOptions α) (op : StageOp α ρ) (xs : List α) :
    stageOut o op (GraphRun.initialSlot op) xs = op.denote o xs := by
  cases op <;> simp [stageOut, GraphRun.initialSlot, StageOp.denote]

theorem stageSucceeds_initial (o : EvalOptions α) (op : StageOp α ρ) (xs : List α) :
    StageSucceeds o op (GraphRun.initialSlot op) xs ↔ op.Succeeds o xs := by
  cases op <;> simp [StageSucceeds, GraphRun.initialSlot, StageOp.Succeeds]

def Frame.left (f : Frame α μ) : List α :=
  if f.done then []
  else
    match f.machine with
    | .generator g => g.values
    | .relation _ => []

def Frame.Succeeds (f : Frame α μ) : Prop :=
  f.done = false →
    match f.machine with
    | .generator g => g.ending ≠ .error
    | .relation _ => False

namespace GraphState

def waiting (d : GraphState σ α μ) (k : Nat) : List α :=
  (d.frames.filter fun f => f.position == k).flatMap Frame.left

def WaitingSucceeds (d : GraphState σ α μ) (k : Nat) : Prop :=
  ∀ f ∈ d.frames, f.position = k → f.Succeeds

def outFrom (o : EvalOptions α) (d : GraphState σ α μ) : Nat → List (Stage α ρ) → List α → List α
  | _, [], xs => xs
  | k, st :: stages, xs =>
    outFrom o d (k + 1) stages
      (inlineOut st.after (d.waiting k ++ stageOut o st.op (d.slots k) xs))

def SucceedsFrom (o : EvalOptions α) (d : GraphState σ α μ) :
    Nat → List (Stage α ρ) → List α → Prop
  | _, [], _ => True
  | k, st :: stages, xs =>
    StageSucceeds o st.op (d.slots k) xs ∧ d.WaitingSucceeds k ∧
      InlineSucceeds st.after (d.waiting k ++ stageOut o st.op (d.slots k) xs) ∧
      SucceedsFrom o d (k + 1) stages
        (inlineOut st.after (d.waiting k ++ stageOut o st.op (d.slots k) xs))

end GraphState

end Salts.CFlow
