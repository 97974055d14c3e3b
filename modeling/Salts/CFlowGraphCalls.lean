import Salts.CFlowGraphAtomic

/-!
Runs of builder calls on one graph.  Two builders do not undo what they did: a SORTED whose edge
cannot be made stays in the graph without it, and an explicit adapter whose edge cannot be made
leaves the version of the node that was taken back.
-/

namespace Salts.CFlow

open Transition

theorem BuildEnv.counter_of_version {env : BuildEnv} {k version : Nat}
    (h : env.version k = some version) : env.counter k = version := by
  unfold BuildEnv.version at h
  split_ifs at h
  exact Option.some.inj h

namespace Graph

variable {g g' : Graph} {env : BuildEnv} {root sg : Subgraph} {n : GraphNode} {id : Nat}

def nodeFits (root : Subgraph) (env : BuildEnv) : Bool :=
  decide (root.nodes.length < invalidId) && env.nodes

/-- The call of `cflow_graph_sorted` appends its node and cannot connect it: the type of the values
has no valid descriptor, no second version is left or there is no room for the edge. -/
def sortedStrands (g : Graph) (env : BuildEnv) (maxElements : Nat) : Bool :=
  (g.subgraphs[g.root]?).any fun root =>
    decide (maxElements ≠ 0) &&
      root.outputType.requireTraits [.compare, .copy, .move, .destroy] && (env.version 0).isSome &&
      nodeFits root env &&
      !(root.outputType.valid && (env.version 1).isSome && env.edges)

/-- The call of `cflow_graph_add_explicit_typed_adapter` makes its node and has no room for the
edge. -/
def adapterStrands (g : Graph) (env : BuildEnv) (op : FlowOp) (fn : FnDesc)
    (input output : TypeDesc) : Bool :=
  (g.subgraphs[g.root]?).any fun root =>
    root.outputType.equal input && adapterAdmitted op fn input output && (env.version 0).isSome &&
      nodeFits root env && !env.edges

theorem appendNode_isSome : (root.appendNode env n).isSome = nodeFits root env := by
  have hfull : (invalidId ≤ root.nodes.length ∨ env.nodes = false) ↔ nodeFits root env = false := by
    unfold nodeFits
    rw [Bool.and_eq_false_iff, decide_eq_false_iff_not, not_lt]
  unfold Subgraph.appendNode
  simp only [hfull]
  cases nodeFits root env <;> rfl

theorem get_put (h : g.subgraphs[id]? = some sg) (sg' : Subgraph) :
    (g.put id sg').subgraphs[id]? = some sg' := by
  have hlt := (List.getElem?_eq_some_iff.mp h).1
  unfold put
  simp [hlt]

theorem connect_appended (hg : g.Settled) (hroot : g.subgraphs[g.root]? = some root)
    (h : Subgraph.Appended root sg n id) (hin : n.inputType = root.outputType) :
    ((g.put g.root sg).connect env.later g.root { source := root.tail, target := id }).2 =
      (root.outputType.valid && (env.version 1).isSome && env.edges) := by
  obtain ⟨m,hm,hout⟩ := (hg root hroot).exit
  have hlt := (hg root hroot).tail_lt
  obtain ⟨rfl,-,rfl⟩ := h
  have hsource : (root.nodes ++ [n])[root.tail]? = some m := by
    rw [List.getElem?_append_left hlt, hm]
  have htarget : (root.nodes ++ [n])[root.nodes.length]? = some n := by simp
  unfold connect Subgraph.pushEdge
  simp only [get_put hroot, hsource, htarget, hout, hin, TypeDesc.equal_self]
  have hversion : env.later.version 0 = env.version 1 := rfl
  have hedges : env.later.edges = env.edges := rfl
  rw [hversion, hedges]
  cases root.outputType.valid <;> cases env.version 1 <;> cases env.edges <;> rfl

theorem put_appended_ne (hroot : g.subgraphs[g.root]? = some root)
    (h : Subgraph.Appended root sg n id) : (g.put g.root sg).subgraphs ≠ g.subgraphs := by
  intro heq
  have hget := get_put hroot sg
  rw [heq, hroot] at hget
  have hlen := congrArg (fun s => s.nodes.length) (Option.some.inj hget)
  obtain ⟨-,-,rfl⟩ := h
  simp at hlen

theorem sorted_spec (hg : g.Settled) (maxElements : Nat) :
    (g.sortedStrands env maxElements = false → g.Clean (g.sorted env maxElements)) ∧
      (g.sortedStrands env maxElements = true →
        (g.sorted env maxElements).2 = false ∧ (g.sorted env maxElements).1.Settled ∧
          (g.sorted env maxElements).1.subgraphs ≠ g.subgraphs) := by
  unfold sorted sortedStrands
  cases hroot : g.subgraphs[g.root]? with
  | none => exact ⟨fun _ => clean_fail g _,by simp⟩
  | some root =>
    have hs := hg root hroot
    simp only [Option.any_some]
    by_cases hmax : maxElements = 0
    · simp only [hmax]
      exact ⟨fun _ => clean_fail g _,by simp⟩
    by_cases htraits :
        root.outputType.requireTraits [.compare, .copy, .move, .destroy] = false
    · simp only [hmax, htraits]
      exact ⟨fun _ => clean_fail g _,by simp⟩
    simp only [hmax, htraits]
    cases hv : env.version 0 with
    | none => exact ⟨fun _ => clean_fail g _,by simp⟩
    | some version =>
      cases ha : root.appendNode env (sortedNode root.outputType maxElements) with
      | none =>
        have hfits : nodeFits root env = false := by
          rw [← appendNode_isSome, ha]
          rfl
        rw [hfits]
        exact ⟨fun _ => clean_fail g _,by simp⟩
      | some row =>
        obtain ⟨sg,id⟩ := row
        obtain ⟨happ,-⟩ := Subgraph.appended hs ha
        have hfits : nodeFits root env = true := by
          rw [← appendNode_isSome, ha]
          rfl
        have hput : (g.put g.root sg).Settled := hg.put fun _ => happ.settled hs
        have hmade := @connect_appended g env root sg _ id hg hroot happ rfl
        have hclean := @connect_clean (g.put g.root sg) env.later g.root hput
          { source := root.tail, target := id }
        dsimp only
        rw [if_neg hs.tail_ne, hfits, ← hmade]
        rcases hclean with ⟨error,hfail⟩ | ⟨hok,hsettled⟩
        · rw [hfail]
          exact ⟨by simp [hmax],fun _ => ⟨rfl,hput,put_appended_ne hroot happ⟩⟩
        · rcases hc : (g.put g.root sg).connect env.later g.root
            { source := root.tail, target := id } with ⟨g'',ok⟩
          rw [hc] at hok hsettled
          cases hok
          exact ⟨fun _ => .inr ⟨rfl,hsettled⟩,by simp⟩

theorem adapter_spec (hg : g.Settled) (op : FlowOp) (fn : FnDesc) (input output : TypeDesc) :
    (g.adapterStrands env op fn input output = false →
        g.Clean (g.addExplicitTypedAdapter env op fn input output)) ∧
      (g.adapterStrands env op fn input output = true →
        (g.addExplicitTypedAdapter env op fn input output).2 = false ∧
          (g.addExplicitTypedAdapter env op fn input output).1.Settled ∧
          (g.addExplicitTypedAdapter env op fn input output).1.version = env.counter 0) := by
  unfold addExplicitTypedAdapter adapterStrands
  cases hroot : g.subgraphs[g.root]? with
  | none => exact ⟨fun _ => clean_fail g _,by simp⟩
  | some root =>
    have hs := hg root hroot
    simp only [Option.any_some]
    by_cases htype : root.outputType.equal input = false
    · simp only [htype]
      exact ⟨fun _ => clean_fail g _,by simp⟩
    rw [if_neg htype]
    unfold createAdapterNode
    simp only [hroot]
    by_cases hadm : adapterAdmitted op fn input output = true
    · simp only [hadm, if_true]
      unfold insertNode
      cases hv : env.version 0 with
      | none => exact ⟨fun _ => .inl ⟨_,rfl⟩,by simp⟩
      | some version =>
        cases ha : root.appendNode env _ with
        | none =>
          have hfits : nodeFits root env = false := by
            rw [← appendNode_isSome, ha]
            rfl
          rw [hfits]
          exact ⟨fun _ => .inl ⟨_,rfl⟩,by simp⟩
        | some row =>
          obtain ⟨sg,id⟩ := row
          obtain ⟨happ,-⟩ := Subgraph.appended hs ha
          have hget := get_put hroot sg
          have hput : (g.put g.root sg).Settled := hg.put fun _ => happ.settled hs
          simp only [hget]
          rw [if_neg hs.tail_ne]
          cases he : sg.addEdge env root.tail id with
          | some sg' =>
            have hedges : env.edges = true := by
              rw [← Bool.not_eq_false, ← happ.addEdge_eq_none_iff hs, he]
              simp
            refine ⟨fun _ => .inr ⟨rfl,?_⟩,by simp [hedges]⟩
            exact hput.put fun _ => Subgraph.addEdge_settled (happ.settled hs) he
          | none =>
            have hedges := (happ.addEdge_eq_none_iff hs).mp he
            have hfits : nodeFits root env = true := by
              rw [← appendNode_isSome, ha]
              rfl
            refine ⟨by simp [hedges, hfits, htype],fun _ => ⟨rfl,?_,?_⟩⟩
            · exact hput.put fun _ => happ.dropNode hs ▸ hs
            · exact (BuildEnv.counter_of_version hv).symm
    · simp only [hadm]
      exact ⟨fun _ => .inl ⟨_,rfl⟩,by simp⟩

end Graph

/-! ### Runs -/

/-- The calls of the builders.  `cflow_graph_take` and `cflow_graph_skip` are slices; REDUCE and ZIP
are operators of `add`. -/
inductive BuilderCall where
  | add (op : FlowOp) (fn : FnDesc) (nested : Option Graph)
  | explicitAdapter (op : FlowOp) (fn : FnDesc) (input output : TypeDesc)
  | take (limit : Nat)
  | skip (count : Nat)
  | distinct (maxUnique : Nat)
  | sorted (maxElements : Nat)
  | reduceSeeded (reducer : FnDesc) (seed : Option Nat)
  | relation (branches : List Graph) (schema : RelationSchema) (reducer : FnDesc)
  | connect (subgraph : Nat) (edge : GraphEdge)
  | setSubgraphExit (subgraph exit : Nat)
  | createSubgraph (input : TypeDesc)
  | createNode (subgraph : Nat) (op : FlowOp) (fn : FnDesc) (nested : List Nat)
  | createAdapterNode (subgraph : Nat) (op : FlowOp) (fn : FnDesc) (input output : TypeDesc)
  | createSliceNode (subgraph : Nat) (op : FlowOp) (input : TypeDesc) (limit : Nat)
  | createDistinctNode (subgraph : Nat) (input : TypeDesc) (maxUnique : Nat)
  | createSortedNode (subgraph : Nat) (input : TypeDesc) (maxElements : Nat)
  | createSeededReduceNode (subgraph : Nat) (reducer : FnDesc) (seed : Option Nat)
  | createRelationNode (subgraph : Nat) (input : TypeDesc) (branches : List Nat)
      (schema : RelationSchema) (reducer : FnDesc)

namespace BuilderCall

open CFlow.Graph

def run (g : Graph) (env : BuildEnv) : BuilderCall → Graph × Bool
  | .add op fn nested => g.add env op fn nested
  | .explicitAdapter op fn input output => g.addExplicitTypedAdapter env op fn input output
  | .take limit => g.take env limit
  | .skip count => g.skip env count
  | .distinct maxUnique => g.distinct env maxUnique
  | .sorted maxElements => g.sorted env maxElements
  | .reduceSeeded reducer seed => g.reduceSeeded env reducer seed
  | .relation branches schema reducer => g.relation env branches schema reducer
  | .connect id edge => g.connect env id edge
  | .setSubgraphExit id exit => g.setSubgraphExit env id exit
  | .createSubgraph t => reported (g.createSubgraph env t)
  | .createNode id op fn nested => reported (g.createNode env id op fn nested)
  | .createAdapterNode id op fn input output =>
    reported (g.createAdapterNode env id op fn input output)
  | .createSliceNode id op t limit => reported (g.createSliceNode env id op t limit)
  | .createDistinctNode id t maxUnique => reported (g.createDistinctNode env id t maxUnique)
  | .createSortedNode id t maxElements => reported (g.createSortedNode env id t maxElements)
  | .createSeededReduceNode id reducer seed =>
    reported (g.createSeededReduceNode env id reducer seed)
  | .createRelationNode id t branches schema reducer =>
    reported (g.createRelationNode env id t branches schema reducer)

def strands (g : Graph) (env : BuildEnv) : BuilderCall → Bool
  | .sorted maxElements => g.sortedStrands env maxElements
  | .explicitAdapter op fn input output => g.adapterStrands env op fn input output
  | _ => false

variable {g : Graph} {env : BuildEnv}

section

variable (hg : g.Settled) (call : BuilderCall)

include hg call

theorem run_clean (h : call.strands g env = false) : g.Clean (call.run g env) := by
  cases call with
  | add op fn nested => exact add_clean hg op fn nested
  | explicitAdapter op fn input output => exact (adapter_spec hg op fn input output).1 h
  | take limit => exact addSlice_clean hg .take limit
  | skip count => exact addSlice_clean hg .skip count
  | distinct maxUnique => exact distinct_clean hg maxUnique
  | sorted maxElements => exact (sorted_spec hg maxElements).1 h
  | reduceSeeded reducer seed => exact reduceSeeded_clean hg reducer seed
  | relation branches schema reducer => exact relation_clean hg branches schema reducer
  | connect id edge => exact connect_clean hg edge
  | setSubgraphExit id exit => exact setSubgraphExit_clean hg exit
  | createSubgraph t => exact createSubgraph_clean hg t
  | createNode id op fn nested => exact createNode_clean hg op fn nested
  | createAdapterNode id op fn input output => exact createAdapterNode_clean hg op fn input output
  | createSliceNode id op t limit => exact createSliceNode_clean hg op t limit
  | createDistinctNode id t maxUnique => exact createDistinctNode_clean hg t maxUnique
  | createSortedNode id t maxElements => exact createSortedNode_clean hg t maxElements
  | createSeededReduceNode id reducer seed => exact createSeededReduceNode_clean hg reducer seed
  | createRelationNode id t branches schema reducer =>
    exact createRelationNode_clean hg t branches schema reducer

/-- A call that strands something fails with a settled graph that is not the one it met: it has
another node or another version. -/
theorem run_strands (h : call.strands g env = true) :
    (call.run g env).2 = false ∧ (call.run g env).1.Settled ∧
      ((call.run g env).1.subgraphs ≠ g.subgraphs ∨
        (call.run g env).1.version = env.counter 0) := by
  cases call with
  | explicitAdapter op fn input output =>
    obtain ⟨hfail,hs,hversion⟩ := (adapter_spec hg op fn input output).2 h
    exact ⟨hfail,hs,.inr hversion⟩
  | sorted maxElements =>
    obtain ⟨hfail,hs,hne⟩ := (sorted_spec hg maxElements).2 h
    exact ⟨hfail,hs,.inl hne⟩
  | _ => cases h

theorem run_settled : (call.run g env).1.Settled := by
  cases h : call.strands g env with
  | true => exact (run_strands hg call h).2.1
  | false => exact (run_clean hg call h).settled hg

end

end BuilderCall

structure GraphBuilding where
  graph : Graph
  counter : Nat

namespace GraphBuilding

/-- A graph after `cflow_graph_init`. -/
def Begins (s : GraphBuilding) : Prop :=
  ∃ env source, s.graph = .init env source ∧ s.counter = s.graph.version + 1

/-- A builder, or `cflow_graph_clone`, whose copy takes the place of the graph. -/
inductive BuildAction where
  | builder (call : BuilderCall)
  | clone

def BuildAction.run (g : Graph) (env : BuildEnv) : BuildAction → Option Graph
  | .builder call => some (call.run g env).1
  | .clone => g.clone env 0

def step (s : GraphBuilding) (a : BuildAction × BuildEnv) : Option GraphBuilding :=
  if s.counter ≤ a.2.counter 0 ∧ a.2.counter 0 ≤ a.2.counter 1 then
    (a.1.run s.graph a.2).map fun graph =>
      { graph, counter := max s.counter (graph.version + 1) }
  else none

structure Sound (s : GraphBuilding) : Prop where
  settled : s.graph.Settled
  ahead : s.graph.version < s.counter

theorem init_settled (env : BuildEnv) (source : TypeDesc) : (Graph.init env source).Settled := by
  unfold Graph.init
  cases env.version 0 with
  | none => exact fun sg hsg => by simp at hsg
  | some version =>
    split_ifs
    · exact fun sg hsg => by simp at hsg
    · exact fun sg hsg => by simp at hsg
    · intro sg hsg
      cases hsg
      exact ⟨(by decide : 0 ≠ invalidId),(by decide : 1 ≤ invalidId),.ofInput source,rfl,rfl⟩

theorem reach_sound {s : GraphBuilding} (hs : Reach step Begins anyAction s) : s.Sound := by
  refine hs.invariant (fun s h => ?_) fun s a t hsound _ ht => ?_
  · obtain ⟨env,source,hgraph,hcounter⟩ := h
    exact ⟨hgraph ▸ init_settled env source,by omega⟩
  · unfold step at ht
    split_ifs at ht
    obtain ⟨graph,hgraph,rfl⟩ := Option.map_eq_some_iff.1 ht
    refine ⟨?_,Nat.lt_of_lt_of_le (Nat.lt_succ_self _) (Nat.le_max_right _ _)⟩
    obtain ⟨call | _,env⟩ := a
    · cases hgraph
      exact BuilderCall.run_settled hsound.settled call
    · exact Graph.clone_graph_settled hsound.settled hgraph

/-- After any run of builders, a call leaves all but the error report as it was when it fails,
unless it strands a node or a version. -/
theorem builder_atomic_iff {s : GraphBuilding} (hs : Reach step Begins anyAction s)
    (call : BuilderCall) (env : BuildEnv) (hcounter : s.counter ≤ env.counter 0) :
    s.graph.Atomic (call.run s.graph env) ↔ call.strands s.graph env = false := by
  obtain ⟨hsettled,hahead⟩ := reach_sound hs
  constructor
  · intro hatomic
    by_contra hstrands
    rw [Bool.not_eq_false] at hstrands
    obtain ⟨hfail,-,hchanged⟩ := BuilderCall.run_strands hsettled call hstrands
    obtain ⟨hsame,-⟩ := hatomic hfail
    rcases hchanged with hnodes | hversion
    · exact hnodes (by rw [hsame])
    · have hkept : (call.run s.graph env).1.version = s.graph.version := by rw [hsame]
      omega
  · intro hstrands
    exact (BuilderCall.run_clean hsettled call hstrands).atomic

def sortableType : TypeDesc :=
  { identity := 9, size := 4, traits := [.compare, .copy, .move, .destroy] }

def fresh : GraphBuilding := { graph := .init {} sortableType, counter := 2 }

def granted (n : Nat) (edges : Bool) : BuildEnv := { counter := fun k => k + n, edges }

def builtCalls : List (BuildAction × BuildEnv) :=
  [(.builder (.take 3), granted 2 true), (.builder (.sorted 4), granted 3 true),
    (.clone, granted 5 true)]

/-- A SKIP that gets no edge fails behind them and leaves the three nodes and two edges. -/
theorem skip_call_atomic :
    ∃ s, exec step fresh builtCalls = some s ∧
      (s.counter ≤ (granted 6 false).counter 0 ∧
        (s.graph.subgraphs.map fun sg => (sg.nodes.length, sg.edges.length, sg.tail)) =
          [(3, 2, 2)] ∧
        ((BuilderCall.skip 1).run s.graph (granted 6 false)).2 = false) ∧
      s.graph.Atomic ((BuilderCall.skip 1).run s.graph (granted 6 false)) := by
  have hreach : Reach step Begins anyAction fresh := .start ⟨{},sortableType,rfl,by decide⟩
  exact exec_shows_and (by decide +kernel) fun s he hs =>
    (builder_atomic_iff (hreach.exec (fun _ _ _ => trivial) he) (.skip 1) (granted 6 false) hs.1).mpr
      rfl

def edgeless : BuildEnv := granted 2 false

/-- Without memory for the edge both calls on a fresh graph fail.  The SORTED stays as a second
node, which is the tail and has no edge, and the graph is no longer valid; the explicit adapter
leaves a new version. -/
theorem failed_calls_leave_traces :
    Reach step Begins anyAction fresh ∧ fresh.counter ≤ edgeless.counter 0 ∧
      ((BuilderCall.sorted 4).run fresh.graph edgeless).2 = false ∧
      (((BuilderCall.sorted 4).run fresh.graph edgeless).1.subgraphs.map fun sg =>
        (sg.nodes.length, sg.edges.length, sg.tail)) = [(2, 0, 1)] ∧
      (fresh.graph.subgraphs.map fun sg => (sg.nodes.length, sg.edges.length, sg.tail)) =
        [(1, 0, 0)] ∧
      fresh.graph.validate edgeless.index = none ∧
      (((BuilderCall.sorted 4).run fresh.graph edgeless).1.validate edgeless.index).isSome = true ∧
      ((BuilderCall.explicitAdapter .map { explicitAdapter := true } sortableType
        sortableType).run fresh.graph edgeless).2 = false ∧
      ((BuilderCall.explicitAdapter .map { explicitAdapter := true } sortableType
        sortableType).run fresh.graph edgeless).1.version = 2 ∧
      fresh.graph.version = 1 :=
  ⟨.start ⟨{},sortableType,rfl,by decide⟩,by decide,by decide,by decide,by decide,
    by decide,by decide,by decide,by decide,by decide⟩

end GraphBuilding

end Salts.CFlow
