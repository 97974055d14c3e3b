import Mathlib.Algebra.Group.Nat.Defs
import Salts.SuccessorTrail

/-!
The graph intermediate representation (`graph.h`, `graph.c`): types, callables and the rows of a
graph as the builders, the validator, the lowering and the optimizer read them.
-/

namespace Salts.CFlow

/-! ### Types -/

/-- `cmeta_trait_flags`. -/
inductive TypeTrait where
  | equal
  | hash
  | compare
  | copy
  | move
  | destroy
  | trivialCopy
  | trivialDestroy
  deriving DecidableEq

inductive TypeKind where
  | void
  | pointer
  | other
  deriving DecidableEq

/-- `cmeta_type_desc`.  `identity` is the same for descriptors of the same type, `valid` is
`cmeta_type_desc_valid`; a null pointer is a descriptor that is not valid. -/
structure TypeDesc where
  identity : Nat
  valid : Bool := true
  size : Nat := 1
  kind : TypeKind := .other
  traits : List TypeTrait := []
  deriving DecidableEq

namespace TypeDesc

def equal (a b : TypeDesc) : Bool := a.valid && b.valid && a.identity == b.identity

def requireTraits (t : TypeDesc) (required : List TypeTrait) : Bool :=
  required.all fun trait => t.traits.contains trait

/-- `cflow_value_storage_type_supported`. -/
def storageSupported (t : TypeDesc) : Bool := t.requireTraits [.trivialCopy, .trivialDestroy]

/-- `cflow_value_lifecycle_type_supported`. -/
def lifecycleSupported (t : TypeDesc) : Bool := t.requireTraits [.copy, .move, .destroy]

def supported (t : TypeDesc) : Bool := t.storageSupported || t.lifecycleSupported

variable {a b c : TypeDesc}

theorem equal_iff : a.equal b = true ↔ a.valid = true ∧ b.valid = true ∧ a.identity = b.identity := by
  simp [equal, and_assoc]

theorem equal_self : a.equal a = a.valid := by
  simp [equal]

theorem equal_symm (h : a.equal b = true) : b.equal a = true := by
  rw [equal_iff] at h ⊢
  exact ⟨h.2.1,h.1,h.2.2.symm⟩

theorem equal_trans (hab : a.equal b = true) (hbc : b.equal c = true) : a.equal c = true := by
  rw [equal_iff] at hab hbc ⊢
  exact ⟨hab.1,hbc.2.1,hab.2.2.trans hbc.2.2⟩

end TypeDesc

/-- `cmeta_type_bool`, `cmeta_type_size_ptr` and `cmeta_type_gen_status`. -/
def typeBool : TypeDesc := { identity := 0 }
def typeSizePtr : TypeDesc := { identity := 1, kind := .pointer }
def typeGenStatus : TypeDesc := { identity := 2 }

/-! ### Callables -/

inductive FnProtocol where
  | value
  | generator
  deriving DecidableEq

structure SigDesc where
  sig : Nat
  returnType : TypeDesc
  params : List TypeDesc
  pointee1 : Option TypeDesc := none
  protocol : FnProtocol := .value

/-- `cmeta_callable`.  `signature` is `cmeta_callable_signature`: nothing when `cmeta_callable_bind`
refuses the callable.  `explicitAdapter` is `cflow_graph_explicit_adapter_callable_valid`, and
`target` is equal for callables whose code and capture are the same. -/
structure FnDesc where
  signature : Option SigDesc := none
  explicitAdapter : Bool := false
  pure : Bool := false
  deterministic : Bool := false
  total : Bool := false
  idempotent : Bool := false
  noAlias : Bool := false
  associative : Bool := false
  target : Nat := 0

def FnDesc.contractValid (fn : FnDesc) : Bool := fn.signature.isSome

/-! ### Operators -/

inductive FlowOp where
  | input
  | relation
  | filter
  | map
  | transform
  | flatMap
  | reduce
  | zip
  | take
  | skip
  | distinct
  | sorted
  deriving DecidableEq

inductive ParamRule where
  | input
  | subgraph
  | outPtr
  | cursor
  deriving DecidableEq

inductive ReturnRule where
  | bool
  | value
  | input
  | generator
  deriving DecidableEq

inductive OutputRule where
  | same
  | returned
  | pointee1
  deriving DecidableEq

inductive Cardinality where
  | one
  | filter
  | expand
  | reduce
  deriving DecidableEq

/-- `cflow_op_schema`.  The rules of the `fn_arity` parameters, whether one nested 1:1 subgraph is
asked for, whether the operator is high-level, and whether it is pure by itself. -/
structure OpSchema where
  params : List ParamRule := []
  ret : ReturnRule
  output : OutputRule
  cardinality : Cardinality
  subgraph1to1 : Bool := false
  highLevel : Bool := false
  intrinsicPure : Bool := true

def OpSchema.fnArity (s : OpSchema) : Nat := s.params.length

def intrinsicSchema : OpSchema :=
  { ret := .input, output := .same, cardinality := .filter, intrinsicPure := false }

/-- `cflow_op_schema_get`. -/
def FlowOp.schema : FlowOp → Option OpSchema
  | .input => none
  | .relation => none
  | .filter => some { params := [.input], ret := .bool, output := .same, cardinality := .filter }
  | .map => some { params := [.input], ret := .value, output := .returned, cardinality := .one }
  | .transform => some { params := [.input], ret := .value, output := .returned, cardinality := .one }
  | .flatMap =>
    some { params := [.input, .outPtr, .cursor], ret := .generator, output := .pointee1,
           cardinality := .expand }
  | .reduce =>
    some { params := [.input, .input], ret := .input, output := .same, cardinality := .reduce,
           intrinsicPure := false }
  | .zip =>
    some { params := [.input, .subgraph], ret := .value, output := .returned, cardinality := .one,
           subgraph1to1 := true, highLevel := true }
  | .take => some intrinsicSchema
  | .skip => some intrinsicSchema
  | .distinct => some intrinsicSchema
  | .sorted => some intrinsicSchema

/-! ### Relations -/

/-- `cflow_relation_coordination`. -/
inductive RelCoordination where
  | all
  | any
  | latest
  | sequence
  deriving DecidableEq

/-- `cflow_relation_completion`. -/
inductive RelCompletion where
  | coordinator
  | firstResult
  | allDone
  deriving DecidableEq

/-- `cflow_relation_error`. -/
inductive RelError where
  | failFast
  | ignore
  | tryNext
  deriving DecidableEq

/-- `cflow_relation_result`. -/
inductive RelResult where
  | fold
  | select
  | invoke
  deriving DecidableEq

structure RelationSchema where
  coordination : RelCoordination
  completion : RelCompletion
  result : RelResult
  error : RelError

def RelationSchema.coordinationError (s : RelationSchema) : Option String :=
  match s.coordination with
  | .all =>
    if s.result ≠ .fold ∧ s.result ≠ .invoke then
      some "ALL relation requires FOLD or INVOKE result policy"
    else none
  | .any =>
    if s.result ≠ .select then some "ANY relation requires SELECT result policy"
    else if s.completion = .allDone then
      some "ANY relation does not support ALL_DONE completion"
    else none
  | .latest =>
    if s.result ≠ .fold then some "LATEST relation requires FOLD result policy" else none
  | .sequence =>
    if s.result ≠ .select then some "SEQUENCE relation requires SELECT result policy" else none

def RelationSchema.errorPolicyError (s : RelationSchema) : Option String :=
  match s.error with
  | .failFast => none
  | .ignore =>
    if s.coordination = .all then
      some "ALL relation cannot IGNORE a child that may have no value"
    else none
  | .tryNext =>
    if s.coordination ≠ .sequence ∨ s.result ≠ .select ∨ s.completion ≠ .firstResult then
      some "TRY_NEXT requires SEQUENCE + SELECT + FIRST_RESULT"
    else none

/-- `relation_schema_valid`: its error, if any. -/
def RelationSchema.schemaError (s : RelationSchema) : Option String :=
  s.coordinationError.or s.errorPolicyError

/-! ### Rows -/

def invalidId : Nat := 2 ^ 32 - 1

/-- `cflow_value_slot` of a seed. -/
structure SeedSlot where
  type : TypeDesc
  value : Nat := 0
  live : Bool := true
  deriving DecidableEq

inductive NodeParams where
  | none
  | take (count : Nat)
  | skip (count : Nat)
  | distinct (maxUnique : Nat)
  | sorted (maxElements : Nat)
  | reduceSeed (owner : Option SeedSlot)
  | typedAdapter
  deriving DecidableEq

/-- `cflow_node`. -/
structure GraphNode where
  op : FlowOp
  fn : Option FnDesc := .none
  fnChain : List FnDesc := []
  relation : Option RelationSchema := .none
  inputType : TypeDesc
  outputType : TypeDesc
  subgraphs : List Nat := []
  sizeParameter : Option Nat := .none
  params : NodeParams := .none

/-- `cflow_edge`. -/
structure GraphEdge where
  source : Nat
  sourcePort : Nat := 0
  target : Nat
  targetPort : Nat := 0

structure Subgraph where
  nodes : List GraphNode := []
  edges : List GraphEdge := []
  entry : Nat := invalidId
  tail : Nat := invalidId
  inputType : TypeDesc
  outputType : TypeDesc

structure Graph where
  subgraphs : List Subgraph := []
  root : Nat := invalidId
  version : Nat := 0
  error : Option String := .none

def GraphNode.reduceSeedSlot (n : GraphNode) : Option SeedSlot :=
  match n.op, n.params with
  | .reduce, .reduceSeed owner => owner
  | _, _ => none

def GraphNode.ofInput (t : TypeDesc) : GraphNode := { op := .input, inputType := t, outputType := t }

namespace Graph

def subgraphOutputType (g : Graph) (id : Nat) : Option TypeDesc :=
  (g.subgraphs[id]?).map (·.outputType)

/-- `cmeta_type_equal` with a type that may be missing. -/
def typeIs (t : Option TypeDesc) (u : TypeDesc) : Bool := t.any fun t => t.equal u

end Graph

/-! ### The dense successor index -/

/-- `cflow_dense_successor_index`; `firstFanout` is the least node with two edges. -/
structure SuccessorIndex where
  nodeCount : Nat
  successors : Nat → Option Nat := fun _ => none
  firstFanout : Option Nat := none

namespace SuccessorIndex

/-- One turn of the loop of `cflow_dense_successor_index_build`, for an edge between nodes. -/
def addEdge (x : SuccessorIndex) (e : GraphEdge) : SuccessorIndex :=
  match x.successors e.source with
  | none => { x with successors := Function.update x.successors e.source (some e.target) }
  | some _ =>
    match x.firstFanout with
    | none => { x with firstFanout := some e.source }
    | some first => if e.source < first then { x with firstFanout := some e.source } else x

inductive Status where
  | invalidArgument
  | invalidEdge
  | allocationFailed
  deriving DecidableEq

/-- `cflow_dense_successor_index_build`; `alloc` is the answer of `malloc`. -/
def build (alloc : Bool) (sg : Subgraph) : Except Status SuccessorIndex :=
  if invalidId < sg.nodes.length then .error .invalidArgument
  else if sg.nodes.length ≠ 0 ∧ alloc = false then .error .allocationFailed
  else if sg.edges.all fun e => e.source < sg.nodes.length && e.target < sg.nodes.length then
    .ok (sg.edges.foldl addEdge { nodeCount := sg.nodes.length })
  else .error .invalidEdge

end SuccessorIndex

/-! ### Nodes -/

namespace GraphNode

def bare (n : GraphNode) : Bool :=
  n.fn.isNone && n.fnChain.isEmpty && n.relation.isNone && n.subgraphs.isEmpty

def called (n : GraphNode) : Bool :=
  n.fn.isSome && n.fnChain.isEmpty && n.relation.isNone && n.subgraphs.isEmpty

def sliceOk (n : GraphNode) : Bool :=
  n.bare && n.inputType.equal n.outputType &&
    match n.op, n.params, n.sizeParameter with
    | .take, .take count, some size => size == count
    | .skip, .skip count, some size => size == count
    | _, _, _ => false

def distinctOk (n : GraphNode) : Bool :=
  n.bare && n.inputType.requireTraits [.hash, .equal] && n.inputType.equal n.outputType &&
    match n.params with
    | .distinct maxUnique => maxUnique != 0
    | _ => false

def sortedOk (n : GraphNode) : Bool :=
  n.bare && n.inputType.requireTraits [.compare, .copy, .move, .destroy] &&
    n.inputType.equal n.outputType &&
    match n.params with
    | .sorted maxElements => maxElements != 0
    | _ => false

def seededOk (n : GraphNode) : Bool :=
  n.called && (n.reduceSeedSlot.any fun slot => slot.live && slot.type.equal n.inputType) &&
    n.inputType.equal n.outputType && n.inputType.requireTraits [.equal]

def adapterOk (n : GraphNode) : Bool :=
  (n.op == .map || ((n.op == .filter || n.op == .reduce) && n.inputType.equal n.outputType)) &&
    n.called && n.inputType.valid && n.inputType.size != 0 && n.outputType.valid &&
    n.outputType.size != 0 && n.fn.any fun fn => fn.explicitAdapter

/-- `validate_subgraph_nodes` up to the callable: the parameters of each operator. -/
def metadataError (n : GraphNode) : Option String :=
  if n.op = .take ∨ n.op = .skip then
    if n.sliceOk then none else some "slice node metadata is inconsistent"
  else if n.sizeParameter.isSome then some "non-slice node carries a size parameter"
  else if n.op = .distinct then
    if n.distinctOk then none else some "distinct node metadata is inconsistent"
  else if n.op = .sorted then
    if n.sortedOk then none else some "sorted node metadata is inconsistent"
  else
    match n.op, n.params with
    | .reduce, .reduceSeed _ =>
      if n.seededOk then none else some "seeded reduce metadata is inconsistent"
    | _, .typedAdapter =>
      if n.adapterOk then none else some "explicit typed adapter metadata is inconsistent"
    | _, .none => none
    | _, _ => some "operator carries an unexpected typed parameter"

def contractError (n : GraphNode) : Option String :=
  if n.params ≠ .typedAdapter ∧ n.fn.any (fun fn => !fn.contractValid) then
    some "callable effect/property contract is invalid"
  else none

/-- The loop of `validate_map_chain`. -/
def chainErrorFrom (n : GraphNode) : TypeDesc → List FnDesc → Option String
  | cur, [] =>
    if cur.equal n.outputType then none
    else some "fused MAP output type metadata is inconsistent"
  | cur, fn :: rest =>
    match fn.signature with
    | none => some "fused MAP chains require valid PURE callback contracts"
    | some sig =>
      if fn.pure = false then some "fused MAP chains require valid PURE callback contracts"
      else if sig.protocol = .value ∧ sig.params.length = 1 ∧ Graph.typeIs sig.params[0]? cur then
        n.chainErrorFrom sig.returnType rest
      else some "fused MAP function chain type mismatch"

/-- `validate_map_chain`. -/
def chainError (n : GraphNode) : Option String :=
  if n.fnChain.isEmpty then none
  else if n.op ≠ .map then some "only MAP may carry a fused function chain"
  else n.chainErrorFrom n.inputType n.fnChain

def signature (n : GraphNode) : Option SigDesc := n.fn.bind (·.signature)

end GraphNode

namespace Graph

def branchError (g : Graph) (n : GraphNode) (result : RelResult) :
    Nat → Option TypeDesc → List Nat → Option String
  | _, _, [] => none
  | k, homogeneous, bid :: rest =>
    match g.subgraphs[bid]? with
    | none => some "RELATION branch source contract is inconsistent"
    | some branch =>
      if branch.inputType.equal n.inputType = false then
        some "RELATION branch source contract is inconsistent"
      else if result = .invoke then
        if n.signature.any fun sig => sig.params.length == n.subgraphs.length &&
            typeIs sig.params[k]? branch.outputType then
          g.branchError n result (k + 1) homogeneous rest
        else some "RELATION INVOKE branch/function type metadata is inconsistent"
      else if (homogeneous.getD branch.outputType).equal branch.outputType then
        g.branchError n result (k + 1) (some (homogeneous.getD branch.outputType)) rest
      else some "RELATION branches must have homogeneous output type"

def resultError (g : Graph) (n : GraphNode) (result : RelResult) : Option String :=
  let homogeneous := (n.subgraphs.head?).bind g.subgraphOutputType
  match result with
  | .invoke =>
    if n.signature.any fun sig => sig.protocol == .value && sig.params.length == 2 &&
        n.outputType.equal sig.returnType then none
    else some "RELATION INVOKE output/function metadata is inconsistent"
  | .fold =>
    if typeIs homogeneous n.outputType = false then
      some "RELATION output type metadata is inconsistent"
    else if n.signature.any fun sig => sig.params.length == 2 &&
        (homogeneous.any fun t => typeIs sig.params[0]? t && typeIs sig.params[1]? t &&
          sig.returnType.equal t) then none
    else some "RELATION FOLD reducer/type metadata is inconsistent"
  | .select =>
    if typeIs homogeneous n.outputType = false then
      some "RELATION output type metadata is inconsistent"
    else if n.fn.isSome then some "RELATION SELECT must not carry a reducer"
    else none

def relationError (g : Graph) (n : GraphNode) : Option String :=
  if n.op ≠ .relation then none
  else
    match n.relation with
    | none => some "RELATION requires a schema and at least one subgraph"
    | some schema =>
      if n.subgraphs.isEmpty then some "RELATION requires a schema and at least one subgraph"
      else if schema.schemaError.isSome then some "RELATION schema is invalid"
      else (g.branchError n schema.result 0 none n.subgraphs).or (g.resultError n schema.result)

def referenceError (g : Graph) (n : GraphNode) : Option String :=
  if n.subgraphs.all fun id => id < g.subgraphs.length then none
  else some "node references invalid subgraph"

/-- One turn of `validate_subgraph_nodes`. -/
def nodeError (g : Graph) (index : SuccessorIndex) (id : Nat) (n : GraphNode) : Option String :=
  n.metadataError.or <| n.contractError.or <| n.chainError.or <|
    (if index.firstFanout = some id then
      some "naked DATA fan-out is forbidden; use an explicit RELATION node" else none).or <|
    (g.relationError n).or (g.referenceError n)

/-- `validate_subgraph_nodes`. -/
def nodesError (g : Graph) (sg : Subgraph) (index : SuccessorIndex) : Option String :=
  sg.nodes.zipIdx.findSome? fun row => g.nodeError index row.2 row.1

/-- `validate_linear_topology`. -/
def topologyError (index : SuccessorIndex) (entry : Nat) : Option String :=
  match SuccessorTrail.walk index.successors index.nodeCount entry 0 with
  | none => some "subgraph contains a topology cycle"
  | some visited =>
    if visited ≠ index.nodeCount then some "subgraph contains unreachable nodes" else none

/-- The loop of `validate_subgraph` over the edges. -/
def edgeError (sg : Subgraph) (e : GraphEdge) : Option String :=
  match sg.nodes[e.source]?, sg.nodes[e.target]? with
  | some source, some target =>
    if source.outputType.equal target.inputType then none else some "data edge type mismatch"
  | _, _ => some "edge references invalid node"

/-- `validate_subgraph` from the index on. -/
def indexedError (g : Graph) (alloc : Bool) (sg : Subgraph) : Option String :=
  match SuccessorIndex.build alloc sg with
  | .error .allocationFailed => some "graph validation allocation failed"
  | .error _ => some "subgraph topology index is invalid"
  | .ok index =>
    if (index.successors sg.tail).isSome then
      some "subgraph exit must not have outgoing data edges"
    else (g.nodesError sg index).or (topologyError index sg.entry)

/-- `validate_subgraph`. -/
def subgraphError (g : Graph) (alloc : Bool) (sg : Subgraph) : Option String :=
  match sg.nodes[sg.entry]?, sg.nodes[sg.tail]? with
  | some entry, some tail =>
    if entry.op ≠ .input then some "subgraph entry must be SOURCE"
    else if (sg.inputType.equal entry.inputType && sg.outputType.equal tail.outputType) = false then
      some "subgraph boundary type metadata is inconsistent"
    else (sg.edges.findSome? (edgeError sg)).or (g.indexedError alloc sg)
  | _, _ => some "subgraph entry/tail is invalid"

/-- `cflow_graph_validate`: its error, if any.  `alloc` says for which subgraphs the allocation of
the index succeeds. -/
def validate (g : Graph) (alloc : Nat → Bool) : Option String :=
  if g.subgraphs.length ≤ g.root then some "graph root is invalid"
  else g.subgraphs.zipIdx.findSome? fun row => g.subgraphError (alloc row.2) row.1

end Graph

end Salts.CFlow
