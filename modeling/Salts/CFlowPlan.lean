import Salts.CFlowData

/-!
The direct plan of a path (`plan_compile.c`, `plan_exec.c`): one instruction for each node, each run
over the whole vector of values before the next one starts.  Copies of values succeed.
-/

namespace Salts.CFlow

variable {α ρ : Type}

inductive PlanInst (α : Type) where
  | filter (call : Callable α Bool)
  | map (chain : List (Callable α α))
  | flatMap (call : Callable α (Generation α))
  | reduce (call : Callable (α × α) α) (seed : Option α)
  | take (sizeParameter : Nat)
  | skip (sizeParameter : Nat)

structure PlanImpl (α : Type) where
  code : List (PlanInst α)
  managedValues : Bool := false
  parallelReduceSupported : Bool := false
  fusedValue : Bool := false
  fusedFilterCount : Nat := 0

variable {impl : PlanImpl α}

section Steps

def stepFilter (call : Callable α Bool) : List α → Option (List α)
  | [] => some []
  | v :: vs =>
    match call.invoke v with
    | none => none
    | some keep => (stepFilter call vs).map fun out => if keep then v :: out else out

/-- The loop of `step_map` over the values for one callable of the chain. -/
def mapValues (call : Callable α α) : List α → Option (List α)
  | [] => some []
  | v :: vs => (call.invoke v).bind fun w => (mapValues call vs).map fun out => w :: out

/-- The loop of `step_map` over the chain. -/
def mapChain : List (Callable α α) → List α → Option (List α)
  | [], vs => some vs
  | call :: chain, vs => (mapValues call vs).bind (mapChain chain)

def stepMap (chain : List (Callable α α)) (vs : List α) : Option (List α) :=
  if chain.isEmpty then none else mapChain chain vs

/-- The calls of `cmeta_callable_generate` for one input, from what is left of its values. -/
def generateAll (ending : GenEnd) : List α → Option (List α)
  | [] => if ending = .error then none else some []
  | v :: vs =>
    if vs.isEmpty ∧ ending = .last then some [v]
    else (generateAll ending vs).map fun out => v :: out

def stepFlatMap (call : Callable α (Generation α)) : List α → Option (List α)
  | [] => some []
  | v :: vs =>
    (generateAll (call.generate v).ending (call.generate v).values).bind fun out =>
      (stepFlatMap call vs).map fun rest => out ++ rest

/-- The loop of `step_reduce` from an accumulator on. -/
def reduceLoop (call : Callable (α × α) α) : α → List α → Option α
  | a, [] => some a
  | a, v :: vs => (call.invoke (a, v)).bind fun b => reduceLoop call b vs

def stepReduce (call : Callable (α × α) α) : Option α → List α → Option (List α)
  | none, [] => some []
  | none, v :: vs => (reduceLoop call v vs).map fun a => [a]
  | some seed, vs => (reduceLoop call seed vs).map fun a => [a]

def PlanInst.step : PlanInst α → List α → Option (List α)
  | .filter call => stepFilter call
  | .map chain => stepMap chain
  | .flatMap call => stepFlatMap call
  | .reduce call seed => stepReduce call seed
  | .take n => fun vs => some (vs.take n)
  | .skip n => fun vs => some (vs.drop n)

/-- The loop of `cflow_plan_eval_prefix_materialized`. -/
def evalCode : List (PlanInst α) → List α → Option (List α)
  | [], vs => some vs
  | inst :: code, vs => (inst.step vs).bind (evalCode code)

def PlanImpl.evalPrefixMaterialized (impl : PlanImpl α) (instructionCount : Nat) (inputs : List α) :
    Option (List α) :=
  if impl.code.length < instructionCount then none
  else evalCode (impl.code.take instructionCount) inputs

theorem evalCode_append (xs ys : List (PlanInst α)) (vs : List α) :
    evalCode (xs ++ ys) vs = (evalCode xs vs).bind (evalCode ys) := by
  induction xs generalizing vs with
  | nil => rfl
  | cons inst xs ih =>
    rw [List.cons_append, evalCode, evalCode, Option.bind_assoc]
    exact Option.bind_congr fun ws _ => ih ws

theorem PlanImpl.evalPrefixMaterialized_of_le {n : Nat} (h : n ≤ impl.code.length)
    (inputs : List α) : impl.evalPrefixMaterialized n inputs = evalCode (impl.code.take n) inputs :=
  if_neg (Nat.not_lt.2 h)

end Steps

section Fused

/-- `call_is_fusible_value` and `call_is_parallel_prefix` ask for the same contract: pure,
deterministic, total and without alias. -/
def Callable.isFusibleValue {β γ : Type} (call : Callable β γ) : Bool :=
  call.pure && call.deterministic && call.total && call.noAlias

/-- `eval_fused_filters`: every filter passes over what the ones before it have selected. -/
def evalFusedFilters : List (PlanInst α) → List α → Option (List α)
  | .filter call :: code, vs => (stepFilter call vs).bind (evalFusedFilters code)
  | [], vs => some vs
  | _ :: _, _ => none

/-- The map calls of `eval_fused_value`. -/
def evalFusedMaps : List (PlanInst α) → List α → Option (List α)
  | .map chain :: code, vs => (mapChain chain vs).bind (evalFusedMaps code)
  | [], vs => some vs
  | _ :: _, _ => none

def PlanImpl.evalFusedValue (impl : PlanImpl α) (inputs : List α) : Option (List α) :=
  if inputs.isEmpty then some []
  else
    (evalFusedFilters (impl.code.take impl.fusedFilterCount) inputs).bind
      (evalFusedMaps (impl.code.drop impl.fusedFilterCount))

def PlanImpl.evalArray (impl : PlanImpl α) (inputs : List α) : Option (List α) :=
  if impl.fusedValue then impl.evalFusedValue inputs
  else impl.evalPrefixMaterialized impl.code.length inputs

def PlanInst.isFusibleMap : PlanInst α → Bool
  | .map chain => !chain.isEmpty && chain.all Callable.isFusibleValue
  | _ => false

def PlanInst.isFusibleFilter : PlanInst α → Bool
  | .filter call => call.isFusibleValue
  | _ => false

def PlanImpl.prepareFusedValue (impl : PlanImpl α) : PlanImpl α :=
  let filters := impl.code.takeWhile PlanInst.isFusibleFilter
  if impl.code.isEmpty || impl.managedValues ||
      !(impl.code.drop filters.length).all PlanInst.isFusibleMap then impl
  else { impl with fusedValue := true, fusedFilterCount := filters.length }

def PlanInst.isParallelReducer : PlanInst α → Bool
  | .reduce call none => call.pure && call.total && call.associative && call.noAlias
  | _ => false

/-- The instructions `prepare_parallel_reduce` allows before the reducer. -/
def PlanInst.isParallelPrefix : PlanInst α → Bool
  | .filter call => call.isFusibleValue
  | .map chain => !chain.isEmpty && chain.all Callable.isFusibleValue
  | .flatMap call => call.isFusibleValue
  | _ => false

/-- `prepare_parallel_reduce`; the terminal reduce index is the last one. -/
def PlanImpl.prepareParallelReduce (impl : PlanImpl α) : PlanImpl α :=
  if (impl.code.getLast?.any PlanInst.isParallelReducer) &&
      impl.code.dropLast.all PlanInst.isParallelPrefix then
    { impl with parallelReduceSupported := true }
  else impl

namespace PlanImpl

variable {impl : PlanImpl α}

@[simp] theorem prepareFusedValue_code : impl.prepareFusedValue.code = impl.code := by
  unfold prepareFusedValue
  dsimp only
  split <;> rfl

@[simp] theorem prepareFusedValue_parallel :
    impl.prepareFusedValue.parallelReduceSupported = impl.parallelReduceSupported := by
  unfold prepareFusedValue
  dsimp only
  split <;> rfl

@[simp] theorem prepareParallelReduce_code : impl.prepareParallelReduce.code = impl.code := by
  unfold prepareParallelReduce
  split <;> rfl

@[simp] theorem prepareParallelReduce_fused :
    impl.prepareParallelReduce.fusedValue = impl.fusedValue := by
  unfold prepareParallelReduce
  split <;> rfl

theorem prepareFusedValue_fused (h : impl.fusedValue = false)
    (hf : impl.prepareFusedValue.fusedValue = true) :
    (∀ i ∈ impl.code.take impl.prepareFusedValue.fusedFilterCount, i.isFusibleFilter = true) ∧
      ∀ i ∈ impl.code.drop impl.prepareFusedValue.fusedFilterCount, i.isFusibleMap = true := by
  unfold prepareFusedValue at hf ⊢
  dsimp only at hf ⊢
  split at hf
  · rw [h] at hf
    cases hf
  · rename_i hcond
    simp only [Bool.or_eq_true, Bool.not_eq_true', not_or, Bool.not_eq_false] at hcond
    rw [if_neg (by simp [hcond.1.1, hcond.1.2, hcond.2])]
    refine ⟨fun i hi => ?_,fun i hi => List.all_eq_true.1 hcond.2 i hi⟩
    have htake : impl.code.take (impl.code.takeWhile PlanInst.isFusibleFilter).length =
        impl.code.takeWhile PlanInst.isFusibleFilter :=
      (List.prefix_iff_eq_take.1 (List.takeWhile_prefix _)).symm
    rw [htake] at hi
    exact List.all_eq_true.1 (List.all_takeWhile) i hi

end PlanImpl

end Fused

inductive PathNode (α ρ : Type) where
  | inline (op : Inline α)
  | stage (op : StageOp α ρ)

def Path.nodes (p : Path α ρ) : List (PathNode α ρ) :=
  p.lead.map .inline ++ p.stages.flatMap fun st => .stage st.op :: st.after.map .inline

namespace PathNode

/-- `opcode_for` with the instruction `cflow_plan_compile` makes of the node. -/
def instruction : PathNode α ρ → Option (PlanInst α)
  | .inline (.filter fn) => some (.filter fn)
  | .inline (.map chain) => some (.map chain)
  | .inline (.transform chain) => some (.map chain)
  | .stage (.flatMap fn) => some (.flatMap fn)
  | .stage (.reduce fn seed) => some (.reduce fn seed)
  | .stage (.take n) => some (.take n)
  | .stage (.skip n) => some (.skip n)
  | .stage (.distinct _) => none
  | .stage (.sorted _) => none
  | .stage (.relation _) => none

def isSlice : PathNode α ρ → Bool
  | .stage (.take _) => true
  | .stage (.skip _) => true
  | _ => false

end PathNode

def Path.mixesSlicesAndCallables (p : Path α ρ) : Bool :=
  p.nodes.any PathNode.isSlice && p.nodes.any fun n => !n.isSlice

/-- The loop of `cflow_plan_compile` over the nodes. -/
def compileNodes : List (PathNode α ρ) → Option (List (PlanInst α))
  | [] => some []
  | n :: nodes => n.instruction.bind fun inst => (compileNodes nodes).map fun code => inst :: code

/-- `cflow_plan_compile` for the path of a valid normalized graph; `managedValues` is that some value
type of the graph is not trivially stored. -/
def Path.compile (p : Path α ρ) (managedValues : Bool) : Except String (PlanImpl α) :=
  if p.mixesSlicesAndCallables then .error "Graph mixes slice and callable plan semantics"
  else
    match compileNodes p.nodes with
    | none => .error "Graph contains a semantic not supported by direct plan"
    | some code =>
      .ok ({ code := code, managedValues := managedValues } : PlanImpl α).prepareParallelReduce.prepareFusedValue

theorem Path.compile_ok {p : Path α ρ} {managedValues : Bool}
    (h : p.compile managedValues = .ok impl) :
    p.mixesSlicesAndCallables = false ∧ compileNodes p.nodes = some impl.code ∧
      ∃ impl₀ : PlanImpl α, impl₀.fusedValue = false ∧ impl₀.parallelReduceSupported = false ∧
        impl = impl₀.prepareParallelReduce.prepareFusedValue := by
  unfold Path.compile at h
  split at h
  · cases h
  rename_i hmix
  split at h
  · cases h
  · rename_i code hcode
    cases h
    exact ⟨by simpa using hmix,by simp [hcode],_,rfl,rfl,rfl⟩

end Salts.CFlow
