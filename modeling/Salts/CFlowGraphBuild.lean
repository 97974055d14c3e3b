import Salts.CFlowGraph

/-!
The builders of a graph (`graph.c`).  Whether an allocation succeeds and which number the version
counter of the process holds are inputs of a call.
-/

namespace Salts.CFlow

/-- What a call meets: the signatures the operators allow, the version counter at its k-th
acquisition, and the answers of the allocations.  A reservation within the capacity succeeds. -/
structure BuildEnv where
  policy : FlowOp → Nat → Bool := fun _ _ => true
  counter : Nat → Nat := fun k => k + 1
  nodes : Bool := true
  edges : Bool := true
  -- the array of nested ids, the slot of a seed and the copy in it
  references : Bool := true
  seed : Bool := true
  -- the table of subgraphs, and the copy of subgraph `i` at the k-th import
  subgraphs : Nat → Bool := fun _ => true
  cloned : Nat → Nat → Bool := fun _ _ => true
  -- the index of subgraph `i` in a validation
  index : Nat → Bool := fun _ => true

namespace BuildEnv

/-- `cflow_graph_version_acquire`. -/
def version (env : BuildEnv) (k : Nat) : Option Nat :=
  if env.counter k < 2 ^ 64 - 1 then some (env.counter k) else none

def later (env : BuildEnv) : BuildEnv := { env with counter := fun k => env.counter (k + 1) }

/-- `cflow_op_signature_allowed`. -/
def allows (env : BuildEnv) (op : FlowOp) (sig : Nat) : Bool :=
  match op with
  | .input | .relation | .take | .skip | .distinct | .sorted => false
  | _ => env.policy op sig

end BuildEnv

def versionError : String := "graph version space exhausted"

/-! ### Rows -/

namespace Subgraph

def appendNode (sg : Subgraph) (env : BuildEnv) (n : GraphNode) : Option (Subgraph × Nat) :=
  let id := sg.nodes.length
  if invalidId ≤ id ∨ env.nodes = false then none
  else
    some ({ sg with
      nodes := sg.nodes ++ [n]
      entry := if sg.entry = invalidId then id else sg.entry
      tail := id
      outputType := n.outputType }, id)

/-- The edge a builder adds, in the room `reserve_edges` has made for it. -/
def pushEdge (sg : Subgraph) (env : BuildEnv) (e : GraphEdge) : Option Subgraph :=
  if env.edges then some { sg with edges := sg.edges ++ [e] } else none

def addEdge (sg : Subgraph) (env : BuildEnv) (source target : Nat) : Option Subgraph :=
  if sg.nodes.length ≤ source ∨ sg.nodes.length ≤ target then none
  else sg.pushEdge env { source, target }

/-- The rollback of the builders: the last node is destroyed and the tail put back. -/
def dropNode (sg : Subgraph) (oldTail : Nat) : Subgraph :=
  let nodes := sg.nodes.dropLast
  { sg with
    nodes
    tail := oldTail
    outputType := ((nodes[oldTail]?).map (·.outputType)).getD sg.inputType }

end Subgraph

def GraphNode.setReduceSeed (n : GraphNode) (seed : Nat) : Option GraphNode :=
  if n.op = .reduce ∧ n.params = .none ∧ n.inputType.equal n.outputType ∧
      n.inputType.requireTraits [.equal] ∧ n.inputType.supported ∧ n.inputType.size ≠ 0 then
    some { n with params := .reduceSeed (some { type := n.inputType, value := seed }) }
  else none

/-- `clone_node`, but for its allocations. -/
def GraphNode.clone (n : GraphNode) : Option GraphNode :=
  match n.params with
  | .reduceSeed _ =>
    n.reduceSeedSlot.bind fun slot => { n with params := .none }.setReduceSeed slot.value
  | _ => some n

/-- `clone_subgraph`, with `ok` for its allocations. -/
def Subgraph.clone (ok : Bool) (sg : Subgraph) : Option Subgraph :=
  if ok then (sg.nodes.mapM GraphNode.clone).map fun nodes => { sg with nodes } else none

namespace Graph

def fail (g : Graph) (message : String) : Graph × Bool := ({ g with error := some message }, false)

def put (g : Graph) (id : Nat) (sg : Subgraph) : Graph :=
  { g with subgraphs := g.subgraphs.set id sg }

/-- `truncate_subgraphs`. -/
def truncate (g : Graph) (keep : Nat) : Graph := { g with subgraphs := g.subgraphs.take keep }

/-- `graph_create_subgraph` with its INPUT node. -/
def pushSubgraph (g : Graph) (t : TypeDesc) : Graph :=
  { g with
    subgraphs := g.subgraphs ++
      [{ nodes := [.ofInput t], entry := 0, tail := 0, inputType := t, outputType := t }] }

def init (env : BuildEnv) (source : TypeDesc) : Graph :=
  match env.version 0 with
  | none => { error := some versionError }
  | some version =>
    if env.subgraphs 0 = false then { error := some "graph allocation failed" }
    else if env.nodes = false then { error := some "source node allocation failed" }
    else { pushSubgraph {} source with root := 0, version }

/-! ### Typing -/

def nodeOneToOne (n : GraphNode) : Bool :=
  match n.op with
  | .input => true
  | .relation =>
    n.relation.any fun s => s.completion == .firstResult || s.completion == .allDone ||
      s.coordination == .all || s.coordination == .any
  | op => op.schema.any fun s => s.cardinality == .one

def isOneToOne (g : Graph) (id : Nat) : Bool :=
  (g.subgraphs[id]?).any fun sg => !sg.nodes.isEmpty && sg.nodes.all nodeOneToOne

/-- `check_param_rule`. -/
def paramError (sig : SigDesc) (input : TypeDesc) (child : Option TypeDesc) (actual : TypeDesc) :
    ParamRule → Option String
  | .input => if actual.equal input then none else some "operator input type mismatch"
  | .subgraph =>
    if child.any fun t => actual.equal t then none else some "operator child type mismatch"
  | .outPtr =>
    if actual.kind = .pointer ∧ sig.pointee1.any fun t => t.kind != .void then none
    else some "operator requires a non-void output pointer"
  | .cursor => if actual.equal typeSizePtr then none else some "operator requires size_t * cursor"

/-- `check_return_rule`. -/
def returnError (ret input : TypeDesc) : ReturnRule → Option String
  | .bool => if ret.equal typeBool then none else some "operator must return bool/_Bool"
  | .value => if ret.kind ≠ .void then none else some "operator cannot return void"
  | .input => if ret.equal input then none else some "operator return type must equal input type"
  | .generator =>
    if ret.equal typeGenStatus then none else some "flatMap must return cmeta_gen_status"

/-- The parameters, the result and the output type of an operator with a callable. -/
def outputTyping (schema : OpSchema) (sig : SigDesc) (input : TypeDesc) (child : Option TypeDesc) :
    Except String TypeDesc :=
  match ((sig.params.zip schema.params).findSome? fun p => paramError sig input child p.1 p.2).or
      (returnError sig.returnType input schema.ret) with
  | some message => .error message
  | none =>
    match schema.output with
    | .same => .ok input
    | .returned => .ok sig.returnType
    | .pointee1 =>
      match sig.pointee1 with
      | none => .error "operator cannot infer output pointee type"
      | some t =>
        if sig.protocol = .generator then .ok t
        else .error "flatMap requires generator protocol"

def callableTyping (env : BuildEnv) (op : FlowOp) (fn : FnDesc) (unsupported : String) :
    Except String (OpSchema × SigDesc) :=
  match op.schema, fn.signature with
  | none, _ => .error unsupported
  | some _, none => .error "callable effect/property contract is invalid"
  | some schema, some sig =>
    if sig.params.length ≠ schema.fnArity then .error "operator function arity mismatch"
    else if env.allows op sig.sig = false then
      .error "signature is not enabled for this operator"
    else .ok (schema, sig)

/-! ### Detached nodes -/

def insertNode (g : Graph) (env : BuildEnv) (id : Nat) (sg : Subgraph) (n : GraphNode)
    (message : String) : Graph × Option Nat :=
  match env.version 0 with
  | none => ({ g with error := some versionError }, none)
  | some version =>
    match sg.appendNode env n with
    | none => ({ g with error := some message }, none)
    | some (sg', node) => ({ g.put id sg' with version, error := none }, some node)

def refuse (g : Graph) (message : String) : Graph × Option Nat :=
  ({ g with error := some message }, none)

def createSubgraph (g : Graph) (env : BuildEnv) (t : TypeDesc) : Graph × Option Nat :=
  match env.version 0 with
  | none => g.refuse versionError
  | some version =>
    if invalidId ≤ g.subgraphs.length ∨ env.subgraphs 0 = false then
      g.refuse "subgraph allocation failed"
    else if env.nodes = false then g.refuse "subgraph source allocation failed"
    else ({ g.pushSubgraph t with version, error := none }, some g.subgraphs.length)

def adapterAdmitted (op : FlowOp) (fn : FnDesc) (input output : TypeDesc) : Bool :=
  (op == .map || ((op == .filter || op == .reduce) && input.equal output)) && input.valid &&
    input.size != 0 && output.valid && output.size != 0 && fn.explicitAdapter

/-- `cflow_graph_create_explicit_typed_adapter_node`. -/
def createAdapterNode (g : Graph) (env : BuildEnv) (id : Nat) (op : FlowOp) (fn : FnDesc)
    (input output : TypeDesc) : Graph × Option Nat :=
  match g.subgraphs[id]? with
  | none => g.refuse "invalid explicit typed adapter node"
  | some sg =>
    if adapterAdmitted op fn input output then
      g.insertNode env id sg
        { op, fn := some fn, inputType := input, outputType := output, params := .typedAdapter }
        "explicit typed adapter node allocation failed"
    else g.refuse "invalid explicit typed adapter node"

/-- The nested subgraph of `derive_node`. -/
def derivedChild (g : Graph) (schema : OpSchema) (nested : List Nat) :
    Except String (Option TypeDesc) :=
  if schema.subgraph1to1 then
    match nested with
    | [id] =>
      if g.subgraphs.length ≤ id then .error "operator requires one nested subgraph"
      else if g.isOneToOne id then .ok (g.subgraphOutputType id)
      else .error "operator requires a 1:1 nested subgraph"
    | _ => .error "operator requires one nested subgraph"
  else if nested.isEmpty then .ok none
  else .error "operator does not accept nested subgraphs"

def deriveNode (g : Graph) (env : BuildEnv) (op : FlowOp) (fn : FnDesc) (nested : List Nat) :
    Except String GraphNode := do
  let (schema, sig) ← callableTyping env op fn "unsupported typed graph operator"
  let child ← g.derivedChild schema nested
  match sig.params with
  | [] => .error "operator function arity mismatch"
  | input :: _ =>
    let output ← outputTyping schema sig input child
    if nested.isEmpty || env.references then
      .ok { op, fn := some fn, inputType := input, outputType := output, subgraphs := nested }
    else .error "nested subgraph reference allocation failed"

def createNode (g : Graph) (env : BuildEnv) (id : Nat) (op : FlowOp) (fn : FnDesc)
    (nested : List Nat) : Graph × Option Nat :=
  match g.subgraphs[id]? with
  | none => g.refuse "invalid target subgraph"
  | some sg =>
    match g.deriveNode env op fn nested with
    | .error message => g.refuse message
    | .ok n => g.insertNode env id sg n "node allocation failed"

def sliceNode (op : FlowOp) (t : TypeDesc) (limit : Nat) : GraphNode :=
  { op, inputType := t, outputType := t, sizeParameter := some limit,
    params := if op = .take then .take limit else .skip limit }

def distinctNode (t : TypeDesc) (maxUnique : Nat) : GraphNode :=
  { op := .distinct, inputType := t, outputType := t, params := .distinct maxUnique }

def sortedNode (t : TypeDesc) (maxElements : Nat) : GraphNode :=
  { op := .sorted, inputType := t, outputType := t, params := .sorted maxElements }

def createSliceNode (g : Graph) (env : BuildEnv) (id : Nat) (op : FlowOp) (t : TypeDesc)
    (limit : Nat) : Graph × Option Nat :=
  match g.subgraphs[id]? with
  | none => g.refuse "invalid slice node arguments"
  | some sg =>
    if t.valid = false then g.refuse "invalid slice node arguments"
    else if op ≠ .take ∧ op ≠ .skip then g.refuse "slice node requires TAKE or SKIP"
    else g.insertNode env id sg (sliceNode op t limit) "slice node allocation failed"

def createDistinctNode (g : Graph) (env : BuildEnv) (id : Nat) (t : TypeDesc) (maxUnique : Nat) :
    Graph × Option Nat :=
  match g.subgraphs[id]? with
  | none => g.refuse "invalid distinct node arguments"
  | some sg =>
    if t.valid = false ∨ maxUnique = 0 then g.refuse "invalid distinct node arguments"
    else if t.requireTraits [.hash, .equal] then
      g.insertNode env id sg (distinctNode t maxUnique) "distinct node allocation failed"
    else g.refuse "distinct requires HASH and EQUAL traits"

def createSortedNode (g : Graph) (env : BuildEnv) (id : Nat) (t : TypeDesc) (maxElements : Nat) :
    Graph × Option Nat :=
  match g.subgraphs[id]? with
  | none => g.refuse "invalid sorted node arguments"
  | some sg =>
    if maxElements = 0 then g.refuse "invalid sorted node arguments"
    else if t.requireTraits [.compare, .copy, .move, .destroy] then
      g.insertNode env id sg (sortedNode t maxElements) "sorted node allocation failed"
    else g.refuse "sorted requires COMPARE and lifecycle traits"

def buildSeededReduceNode (g : Graph) (env : BuildEnv) (reducer : FnDesc) (seed : Option Nat) :
    Except (Option String) GraphNode :=
  match seed with
  | none => .error none
  | some seed =>
    match g.deriveNode env .reduce reducer [] with
    | .error message => .error (some message)
    | .ok n =>
      match n.setReduceSeed seed, env.seed with
      | some n, true => .ok n
      | _, _ => .error (some "seeded reduce requires an owned comparable T seed")

def createSeededReduceNode (g : Graph) (env : BuildEnv) (id : Nat) (reducer : FnDesc)
    (seed : Option Nat) : Graph × Option Nat :=
  match g.subgraphs[id]? with
  | none => (g, none)
  | some sg =>
    match g.buildSeededReduceNode env reducer seed with
    | .error none => (g, none)
    | .error (some message) => g.refuse message
    | .ok n => g.insertNode env id sg n "seeded reduce node allocation failed"

/-- The branch loop of `cflow_graph_create_relation_node`: every branch reads the input; INVOKE
gives each branch to its own parameter, the other policies want one output type. -/
def branchTyping (g : Graph) (input : TypeDesc) (invoked : Option SigDesc) :
    List Nat → Nat → Option TypeDesc → Except String (Option TypeDesc)
  | [], _, homogeneous => .ok homogeneous
  | id :: rest, i, homogeneous =>
    match g.subgraphs[id]? with
    | none => .error "relation branch source type mismatch"
    | some b =>
      if b.inputType.equal input = false then .error "relation branch source type mismatch"
      else
        match invoked with
        | some sig =>
          if (sig.params[i]?).any fun t => t.equal b.outputType then
            branchTyping g input invoked rest (i + 1) homogeneous
          else .error "relation INVOKE parameter/branch type mismatch"
        | none =>
          if (homogeneous.getD b.outputType).equal b.outputType then
            branchTyping g input invoked rest (i + 1) (some (homogeneous.getD b.outputType))
          else .error "relation branches must have one homogeneous output type"

def foldsInto (env : BuildEnv) (sig : SigDesc) (t : TypeDesc) : Bool :=
  sig.protocol == .value && sig.params.length == 2 && sig.params.all (fun p => p.equal t) &&
    sig.returnType.equal t && env.allows .reduce sig.sig

/-- The typing of `cflow_graph_create_relation_node`. -/
def relationTyping (g : Graph) (env : BuildEnv) (input : TypeDesc) (branches : List Nat)
    (schema : RelationSchema) (reducer : FnDesc) : Except String TypeDesc :=
  match schema.result, reducer.signature with
  | .select, _ => do
      match ← g.branchTyping input none branches 0 none with
      | some t => .ok t
      | none => .error "invalid relation node arguments"
  | _, none => .error "relation callable effect/property contract is invalid"
  | .invoke, some sig =>
    if sig.protocol = .value ∧ sig.params.length = branches.length ∧ branches.length = 2 ∧
        sig.returnType.kind ≠ .void then do
      let _ ← g.branchTyping input (some sig) branches 0 none
      .ok sig.returnType
    else .error "relation INVOKE requires a binary value callable"
  | .fold, some sig => do
      match ← g.branchTyping input none branches 0 none with
      | none => .error "invalid relation node arguments"
      | some t =>
        if foldsInto env sig t then .ok t
        else .error "relation FOLD reducer/type contract is invalid"

def relationNode (input output : TypeDesc) (branches : List Nat) (schema : RelationSchema)
    (reducer : FnDesc) : GraphNode :=
  { op := .relation, relation := some schema, inputType := input, outputType := output,
    subgraphs := branches, fn := if schema.result = .select then none else some reducer }

def createRelationNode (g : Graph) (env : BuildEnv) (id : Nat) (input : TypeDesc)
    (branches : List Nat) (schema : RelationSchema) (reducer : FnDesc) : Graph × Option Nat :=
  match g.subgraphs[id]? with
  | none => g.refuse "invalid relation node arguments"
  | some sg =>
    if branches.isEmpty then g.refuse "invalid relation node arguments"
    else
      match schema.schemaError with
      | some message => g.refuse message
      | none =>
        match g.relationTyping env input branches schema reducer with
        | .error message => g.refuse message
        | .ok output =>
          if env.references then
            g.insertNode env id sg (relationNode input output branches schema reducer)
              "relation node allocation failed"
          else g.refuse "relation subgraph reference allocation failed"

def connect (g : Graph) (env : BuildEnv) (id : Nat) (e : GraphEdge) : Graph × Bool :=
  match g.subgraphs[id]? with
  | none => g.fail "invalid edge endpoint"
  | some sg =>
    match sg.nodes[e.source]?, sg.nodes[e.target]? with
    | some source, some target =>
      if source.outputType.equal target.inputType = false then g.fail "edge type mismatch"
      else
        match env.version 0 with
        | none => g.fail versionError
        | some version =>
          match sg.pushEdge env e with
          | none => g.fail "edge allocation failed"
          | some sg' => ({ g.put id sg' with version, error := none }, true)
    | _, _ => g.fail "invalid edge endpoint"

def setSubgraphExit (g : Graph) (env : BuildEnv) (id exit : Nat) : Graph × Bool :=
  match g.subgraphs[id]? with
  | none => g.fail "invalid subgraph exit"
  | some sg =>
    match sg.nodes[exit]? with
    | none => g.fail "invalid subgraph exit"
    | some n =>
      match env.version 0 with
      | none => g.fail versionError
      | some version =>
        ({ g.put id { sg with tail := exit, outputType := n.outputType } with
          version, error := none }, true)

end Graph

/-! ### The builders that append an operator to the root -/

namespace Graph

/-- The node and the edge of a builder, with its two messages.  `keep` is the number of subgraphs
the rollback leaves. -/
def appendAtTail (g : Graph) (env : BuildEnv) (version keep : Nat) (root : Subgraph)
    (n : GraphNode) (nodeMessage edgeMessage : String) : Graph × Bool :=
  match root.appendNode env n with
  | none => (g.truncate keep).fail nodeMessage
  | some (sg, id) =>
    if root.tail = invalidId then ({ g.put g.root sg with version, error := none }, true)
    else
      match sg.addEdge env root.tail id with
      | none => ((g.put g.root (sg.dropNode root.tail)).truncate keep).fail edgeMessage
      | some sg' => ({ g.put g.root sg' with version, error := none }, true)

/-! ### Snapshots of other graphs -/

def snapshot (src : Graph) (env : BuildEnv) (k : Nat) : Option (List Subgraph) :=
  src.subgraphs.zipIdx.mapM fun row => row.1.clone (env.cloned k row.2)

def shiftNode (base : Nat) (n : GraphNode) : GraphNode :=
  { n with subgraphs := n.subgraphs.map (base + ·) }

def shiftSubgraph (base : Nat) (sg : Subgraph) : Subgraph :=
  { sg with nodes := sg.nodes.map (shiftNode base) }

def referencesInside (src : Graph) : Bool :=
  src.subgraphs.all fun sg =>
    sg.nodes.all fun n => n.subgraphs.all fun id => decide (id < src.subgraphs.length)

def importGraph (g : Graph) (env : BuildEnv) (k : Nat) (src : Graph) : Option (Graph × Nat) :=
  let base := g.subgraphs.length
  if src.subgraphs.length ≤ src.root ∨ invalidId ≤ base + src.subgraphs.length ∨
      env.subgraphs k = false ∨ src.referencesInside = false then none
  else
    (src.snapshot env k).map fun copies =>
      ({ g with subgraphs := g.subgraphs ++ copies.map (shiftSubgraph base) }, base + src.root)

def clone (src : Graph) (env : BuildEnv) (k : Nat) : Option Graph :=
  if src.subgraphs.length ≤ src.root then none
  else
    match env.version 0 with
    | none => none
    | some version =>
      if env.subgraphs k = false then none
      else
        (src.snapshot env k).map fun copies =>
          { subgraphs := copies, root := src.root, version, error := src.error }

/-! ### Operators with a callable -/

/-- The branch of `cflow_graph_add`. -/
def addedChild (g : Graph) (root : Subgraph) (schema : OpSchema) (nested : Option Graph) :
    Except String (Option TypeDesc) :=
  if schema.subgraph1to1 then
    match nested with
    | none => .error "operator requires a subgraph branch"
    | some b =>
      match b.subgraphs[b.root]? with
      | none => .error "operator requires a subgraph branch"
      | some branch =>
        if root.inputType.equal branch.inputType = false then
          .error "subgraph branch must have the same source type"
        else if g.isOneToOne g.root && b.isOneToOne b.root then .ok (some branch.outputType)
        else .error "operator requires 1:1 branches"
  else if nested.isSome then .error "operator does not accept a subgraph branch"
  else .ok none

def addedTyping (g : Graph) (root : Subgraph) (schema : OpSchema) (sig : SigDesc)
    (nested : Option Graph) : Except String TypeDesc := do
  outputTyping schema sig root.outputType (← g.addedChild root schema nested)

/-- The import and the node of `cflow_graph_add`. -/
def addNode (g : Graph) (env : BuildEnv) (version : Nat) (root : Subgraph) (n : GraphNode)
    (nested : Option Graph) : Graph × Bool :=
  let keep := g.subgraphs.length
  match nested with
  | none =>
    g.appendAtTail env version keep root n "node allocation failed" "edge allocation failed"
  | some branch =>
    match g.importGraph env 0 branch with
    | none => g.fail "subgraph snapshot import failed"
    | some (g', id) =>
      if env.references = false then
        (g'.truncate keep).fail "subgraph reference allocation failed"
      else
        g'.appendAtTail env version keep root { n with subgraphs := [id] }
          "node allocation failed" "edge allocation failed"

def add (g : Graph) (env : BuildEnv) (op : FlowOp) (fn : FnDesc) (nested : Option Graph) :
    Graph × Bool :=
  match g.subgraphs[g.root]? with
  | none => g.fail "graph is not initialized"
  | some root =>
    match callableTyping env op fn "unsupported graph operator" with
    | .error message => g.fail message
    | .ok (schema, sig) =>
      match env.version 0 with
      | none => g.fail versionError
      | some version =>
        match g.addedTyping root schema sig nested with
        | .error message => g.fail message
        | .ok output =>
          g.addNode env version root
            { op, fn := some fn, inputType := root.outputType, outputType := output } nested

/-- `cflow_graph_add_explicit_typed_adapter`: the node is a detached one, whose version stays when
the node is undone. -/
def addExplicitTypedAdapter (g : Graph) (env : BuildEnv) (op : FlowOp) (fn : FnDesc)
    (input output : TypeDesc) : Graph × Bool :=
  match g.subgraphs[g.root]? with
  | none => g.fail "graph is not initialized"
  | some root =>
    if root.outputType.equal input = false then
      g.fail "explicit typed adapter input type does not match graph output"
    else
      match g.createAdapterNode env g.root op fn input output with
      | (g', none) => (g', false)
      | (g', some id) =>
        match g'.subgraphs[g.root]? with
        | none => g'.fail "graph is not initialized"
        | some sg =>
          if root.tail = invalidId then ({ g' with error := none }, true)
          else
            match sg.addEdge env root.tail id with
            | none =>
              (g'.put g.root (sg.dropNode root.tail)).fail
                "explicit typed adapter edge allocation failed"
            | some sg' => ({ g'.put g.root sg' with error := none }, true)

/-! ### Operators without a callable -/

def addSlice (g : Graph) (env : BuildEnv) (op : FlowOp) (limit : Nat) : Graph × Bool :=
  match g.subgraphs[g.root]? with
  | none => g.fail "graph is not initialized"
  | some root =>
    if op ≠ .take ∧ op ≠ .skip then g.fail "slice operator is invalid"
    else
      match env.version 0 with
      | none => g.fail versionError
      | some version =>
        g.appendAtTail env version g.subgraphs.length root (sliceNode op root.outputType limit)
          "slice node allocation failed" "edge allocation failed"

def take (g : Graph) (env : BuildEnv) (limit : Nat) : Graph × Bool := g.addSlice env .take limit

def skip (g : Graph) (env : BuildEnv) (count : Nat) : Graph × Bool := g.addSlice env .skip count

def distinct (g : Graph) (env : BuildEnv) (maxUnique : Nat) : Graph × Bool :=
  match g.subgraphs[g.root]? with
  | none => g.fail "graph is not initialized"
  | some root =>
    if maxUnique = 0 then g.fail "distinct max_unique must be nonzero"
    else if root.outputType.requireTraits [.hash, .equal] = false then
      g.fail "distinct requires HASH and EQUAL traits"
    else
      match env.version 0 with
      | none => g.fail versionError
      | some version =>
        g.appendAtTail env version g.subgraphs.length root
          (distinctNode root.outputType maxUnique)
          "distinct node allocation failed" "edge allocation failed"

/-- `cflow_graph_sorted`: the edge is that of `cflow_graph_connect`, and nothing is undone. -/
def sorted (g : Graph) (env : BuildEnv) (maxElements : Nat) : Graph × Bool :=
  match g.subgraphs[g.root]? with
  | none => g.fail "invalid graph"
  | some root =>
    if maxElements = 0 then g.fail "sorted max_elements must be nonzero"
    else if root.outputType.requireTraits [.compare, .copy, .move, .destroy] = false then
      g.fail "sorted requires COMPARE and lifecycle traits"
    else
      match env.version 0 with
      | none => g.fail versionError
      | some version =>
        match root.appendNode env (sortedNode root.outputType maxElements) with
        | none => g.fail "sorted node allocation failed"
        | some (sg, id) =>
          let g' := g.put g.root sg
          if root.tail = invalidId then ({ g' with version, error := none }, true)
          else
            match g'.connect env.later g.root { source := root.tail, target := id } with
            | (g'', false) => (g'', false)
            | (g'', true) => ({ g'' with version, error := none }, true)

def reduceSeeded (g : Graph) (env : BuildEnv) (reducer : FnDesc) (seed : Option Nat) :
    Graph × Bool :=
  match g.subgraphs[g.root]? with
  | none => g.fail "graph is not initialized"
  | some root =>
    match g.buildSeededReduceNode env reducer seed with
    | .error none => (g, false)
    | .error (some message) => g.fail message
    | .ok n =>
      if root.outputType.equal n.inputType = false then
        g.fail "seeded reduce input type does not match graph output"
      else
        match env.version 0 with
        | none => g.fail versionError
        | some version =>
          g.appendAtTail env version g.subgraphs.length root n
            "seeded reduce node allocation failed" "seeded reduce edge allocation failed"

/-! ### Relations -/

/-- The branch loop of `build_relation`; branch `k` is import number `k`.  A missing branch is a
graph without a root. -/
def importBranches (env : BuildEnv) (input : TypeDesc) :
    Nat → Option TypeDesc → List Graph → Graph → Except String (Graph × List Nat × Option TypeDesc)
  | _, output, [], g => .ok (g, [], output)
  | k, output, b :: rest, g =>
    match b.subgraphs[b.root]? with
    | none => .error "relation branch source type mismatch"
    | some branch =>
      if branch.inputType.equal input = false then
        .error "relation branch source type mismatch"
      else
        let output := output.getD branch.outputType
        if branch.outputType.equal output = false then
          .error "relation branches must have one homogeneous output type"
        else
          match g.importGraph env k b with
          | none => .error "relation branch snapshot import failed"
          | some (g', id) => do
              let (g'', ids, output) ← importBranches env input (k + 1) (some output) rest g'
              .ok (g'', id :: ids, output)

/-- The reducer of `build_relation`. -/
def foldTyping (env : BuildEnv) (reducer : FnDesc) : Except String TypeDesc :=
  match reducer.signature with
  | none => .error "relation FOLD reducer contract is invalid"
  | some sig =>
    match sig.params with
    | [left, right] =>
      if sig.protocol ≠ .value ∨ left.equal right = false ∨
          left.equal sig.returnType = false then
        .error "relation FOLD reducer must have T(T,T) signature"
      else if env.allows .reduce sig.sig = false then
        .error "relation FOLD reducer signature is not enabled by reduce policy"
      else .ok sig.returnType
    | _ => .error "relation FOLD reducer must have T(T,T) signature"

/-- The branches and the node of `build_relation`. -/
def joinBranches (g : Graph) (env : BuildEnv) (version : Nat) (root : Subgraph)
    (folded : Option TypeDesc) (branches : List Graph) (schema : RelationSchema)
    (reducer : FnDesc) : Except String Graph :=
  match importBranches env root.outputType 0 folded branches g with
  | .error message => .error message
  | .ok (g', ids, output) =>
    let n := relationNode root.outputType (output.getD root.outputType) ids schema reducer
    match root.appendNode env n with
    | none => .error "relation node allocation failed"
    | some (sg, id) =>
      if root.tail = invalidId then .ok { g'.put g.root sg with version, error := none }
      else
        match sg.addEdge env root.tail id with
        | none => .error "relation input edge allocation failed"
        | some sg' => .ok { g'.put g.root sg' with version, error := none }

def relationRefusal (branches : List Graph) (schema : RelationSchema) : Option String :=
  if branches.isEmpty then some "relation requires at least one branch"
  else
    schema.schemaError.or
      (if schema.result = .invoke then
        some "INVOKE relation is reserved for structured lowering/IR builder" else none)

def buildRelation (g : Graph) (env : BuildEnv) (branches : List Graph) (schema : RelationSchema)
    (reducer : FnDesc) : Except String Graph :=
  match g.subgraphs[g.root]? with
  | none => .error "relation requires at least one branch"
  | some root =>
    match relationRefusal branches schema, env.version 0 with
    | some message, _ => .error message
    | none, none => .error versionError
    | none, some version =>
      match if schema.result = .fold then (foldTyping env reducer).map some else .ok none with
      | .error message => .error message
      | .ok folded =>
        if env.references then g.joinBranches env version root folded branches schema reducer
        else .error "relation branch id allocation failed"

/-- `cflow_graph_relation`: the relation is built and validated in a copy, which then takes the
place of the graph. -/
def relation (g : Graph) (env : BuildEnv) (branches : List Graph) (schema : RelationSchema)
    (reducer : FnDesc) : Graph × Bool :=
  match g.clone env branches.length with
  | none => g.fail "relation transaction clone failed"
  | some work =>
    match work.buildRelation env.later branches schema reducer with
    | .error message => g.fail message
    | .ok work =>
      match work.validate env.index with
      | some message => g.fail message
      | none => (work, true)

end Graph

end Salts.CFlow
