import Salts.CFlowGraphBuild
import Salts.Transition

/-!
What a failed builder leaves behind.  In every graph the builders make, the tail of the root is one
of its nodes and gives the root its output type; this is what makes the rollback of a builder exact.
-/

namespace Salts.CFlow

theorem mapM_getElem? {α β : Type} {f : α → Option β} {l : List α} {l' : List β}
    (h : l.mapM f = some l') :
    l'.length = l.length ∧ ∀ (i : Nat) (a : α), l[i]? = some a → ∃ b, l'[i]? = some b ∧ f a = some b := by
  induction l generalizing l' with
  | nil =>
    cases h
    exact ⟨rfl,fun i a hi => by simp at hi⟩
  | cons x xs ih =>
    simp only [List.mapM_cons, Option.bind_eq_bind, Option.bind_eq_some_iff, Option.pure_def,
      Option.some.injEq] at h
    obtain ⟨y,hy,ys,hys,rfl⟩ := h
    obtain ⟨hlen,hget⟩ := ih hys
    refine ⟨by simp [hlen],fun i a hi => ?_⟩
    cases i with
    | zero =>
      cases hi
      exact ⟨y,rfl,hy⟩
    | succ i => exact hget i a hi

theorem GraphNode.clone_outputType {n n' : GraphNode} (h : n.clone = some n') :
    n'.outputType = n.outputType := by
  unfold GraphNode.clone at h
  split at h
  · obtain ⟨slot,-,h⟩ := Option.bind_eq_some_iff.mp h
    unfold GraphNode.setReduceSeed at h
    split_ifs at h
    cases h
    rfl
  · cases h
    rfl

/-! ### Settled subgraphs -/

namespace Subgraph

structure Settled (sg : Subgraph) : Prop where
  opened : sg.entry ≠ invalidId
  bounded : sg.nodes.length ≤ invalidId
  exit : ∃ n, sg.nodes[sg.tail]? = some n ∧ n.outputType = sg.outputType

variable {sg sg' : Subgraph} {env : BuildEnv} {n : GraphNode} {id : Nat}

theorem Settled.tail_lt (h : sg.Settled) : sg.tail < sg.nodes.length := by
  obtain ⟨m,hm,_⟩ := h.exit
  exact (List.getElem?_eq_some_iff.mp hm).1

theorem Settled.tail_ne (h : sg.Settled) : sg.tail ≠ invalidId := by
  have := h.tail_lt
  have := h.bounded
  omega

structure Appended (sg sg' : Subgraph) (n : GraphNode) (id : Nat) : Prop where
  id_eq : id = sg.nodes.length
  fits : sg.nodes.length < invalidId
  eq : sg' = { sg with nodes := sg.nodes ++ [n], tail := id, outputType := n.outputType }

section

variable (hs : sg.Settled)

include hs

theorem appended (h : sg.appendNode env n = some (sg', id)) :
    Appended sg sg' n id ∧ env.nodes = true := by
  unfold appendNode at h
  dsimp only at h
  split_ifs at h with hfull hentry
  · exact absurd hentry hs.opened
  · rw [not_or, not_le, Bool.not_eq_false] at hfull
    cases h
    exact ⟨⟨rfl,hfull.1,rfl⟩,hfull.2⟩

theorem Appended.settled (h : Appended sg sg' n id) : sg'.Settled := by
  obtain ⟨hid,hfits,rfl⟩ := h
  refine ⟨hs.opened,?_,n,?_,rfl⟩
  · simpa using Nat.succ_le_of_lt hfits
  · simp [hid]

theorem Appended.dropNode (h : Appended sg sg' n id) : sg'.dropNode sg.tail = sg := by
  obtain ⟨m,hm,hout⟩ := hs.exit
  obtain ⟨-,-,rfl⟩ := h
  unfold Subgraph.dropNode
  simp [hm, hout]

theorem pushEdge_settled {e : GraphEdge} (h : sg.pushEdge env e = some sg') : sg'.Settled := by
  unfold pushEdge at h
  split_ifs at h
  cases h
  exact ⟨hs.opened,hs.bounded,hs.exit⟩

theorem addEdge_settled {source target : Nat}
    (h : sg.addEdge env source target = some sg') : sg'.Settled := by
  unfold addEdge at h
  split_ifs at h
  exact pushEdge_settled hs h

theorem Appended.addEdge_eq_none_iff (h : Appended sg sg' n id) :
    sg'.addEdge env sg.tail id = none ↔ env.edges = false := by
  have hlt := hs.tail_lt
  obtain ⟨rfl,-,rfl⟩ := h
  unfold addEdge pushEdge
  rw [if_neg (by simp; omega)]
  cases env.edges <;> simp

theorem clone_settled {ok : Bool} (h : sg.clone ok = some sg') : sg'.Settled := by
  unfold clone at h
  split_ifs at h
  obtain ⟨nodes,hnodes,rfl⟩ := Option.map_eq_some_iff.mp h
  obtain ⟨hlen,hget⟩ := mapM_getElem? hnodes
  obtain ⟨m,hm,hout⟩ := hs.exit
  obtain ⟨m',hm',hclone⟩ := hget _ _ hm
  exact ⟨hs.opened,hlen ▸ hs.bounded,m',hm',(GraphNode.clone_outputType hclone).trans hout⟩

end

end Subgraph

/-! ### Settled graphs -/

namespace Graph

def Settled (g : Graph) : Prop := ∀ sg, g.subgraphs[g.root]? = some sg → sg.Settled

def Atomic (g : Graph) (r : Graph × Bool) : Prop :=
  r.2 = false → r.1 = { g with error := r.1.error } ∧ ∀ alloc, r.1.validate alloc = g.validate alloc

variable {g g' : Graph} {env : BuildEnv} {root sg sg' : Subgraph} {n : GraphNode} {id : Nat}

theorem branchError_error (error : Option String) (result : RelResult) (ids : List Nat) (k : Nat)
    (homogeneous : Option TypeDesc) :
    { g with error }.branchError n result k homogeneous ids =
      g.branchError n result k homogeneous ids := by
  induction ids generalizing k homogeneous with
  | nil => rfl
  | cons id rest ih =>
    unfold branchError
    simp [ih]

theorem relationError_error (g : Graph) (error : Option String) (n : GraphNode) :
    { g with error }.relationError n = g.relationError n := by
  unfold relationError
  simp only [branchError_error]
  rfl

theorem validate_error (g : Graph) (error : Option String) (alloc : Nat → Bool) :
    { g with error }.validate alloc = g.validate alloc := by
  unfold validate subgraphError indexedError nodesError nodeError
  simp only [relationError_error]
  rfl

variable {r : Graph × Bool} {branches : List Graph} {schema : RelationSchema}

theorem Atomic.of_error {error : Option String}
    (h : r.2 = false → r.1 = { g with error }) : g.Atomic r := by
  intro hr
  rw [h hr]
  exact ⟨rfl,validate_error g error⟩

theorem atomic_of_true (h : r.2 = true) : g.Atomic r := by
  intro hr
  exact absurd (hr.symm.trans h) (by decide)

theorem put_self (h : g.subgraphs[id]? = some sg) : g.put id sg = g := by
  obtain ⟨hlt,rfl⟩ := List.getElem?_eq_some_iff.mp h
  unfold put
  rw [List.set_getElem_self]

theorem Settled.put (h : g.Settled) (hsg : id = g.root → sg.Settled) : (g.put id sg).Settled := by
  intro root hroot
  have hroot : (g.subgraphs.set id sg)[g.root]? = some root := hroot
  rw [List.getElem?_set] at hroot
  split_ifs at hroot with hid hlt
  · exact Option.some.inj hroot ▸ hsg hid
  · exact h root hroot

theorem truncate_append (g : Graph) (extra : List Subgraph) :
    truncate { g with subgraphs := g.subgraphs ++ extra } g.subgraphs.length = g := by
  unfold truncate
  simp

/-! ### Clean builders -/

/-- A builder either changes the error report alone and fails, or it succeeds with a settled
graph. -/
def Clean (g : Graph) (r : Graph × Bool) : Prop :=
  (∃ error, r = ({ g with error }, false)) ∨ (r.2 = true ∧ r.1.Settled)

def reported (r : Graph × Option Nat) : Graph × Bool := (r.1, r.2.isSome)

theorem clean_fail (g : Graph) (message : String) : g.Clean (g.fail message) := .inl ⟨_,rfl⟩

theorem clean_refuse (g : Graph) (message : String) : g.Clean (reported (g.refuse message)) :=
  .inl ⟨_,rfl⟩

theorem Clean.atomic (h : g.Clean r) : g.Atomic r := by
  rcases h with ⟨error,rfl⟩ | ⟨hr,-⟩
  · exact .of_error fun _ => rfl
  · exact atomic_of_true hr

theorem Clean.settled (hg : g.Settled) (h : g.Clean r) : r.1.Settled := by
  rcases h with ⟨error,rfl⟩ | ⟨-,hs⟩
  · exact hg
  · exact hs

theorem insertNode_clean (hg : g.Settled) (hsg : g.subgraphs[id]? = some sg) (message : String) :
    g.Clean (reported (g.insertNode env id sg n message)) := by
  unfold insertNode
  cases env.version 0 with
  | none => exact clean_refuse g _
  | some version =>
    cases ha : sg.appendNode env n with
    | none => exact clean_refuse g _
    | some row =>
      refine .inr ⟨rfl,hg.put fun hid => ?_⟩
      have hs : sg.Settled := hg sg (hid ▸ hsg)
      exact (Subgraph.appended hs ha).1.settled hs

theorem appendAtTail_clean (hg : g.Settled) (hroot : g.subgraphs[g.root]? = some root)
    (extra : List Subgraph) (version : Nat) (nodeMessage edgeMessage : String) :
    g.Clean (appendAtTail { g with subgraphs := g.subgraphs ++ extra } env version
      g.subgraphs.length root n nodeMessage edgeMessage) := by
  have hs := hg root hroot
  have hroot' : (g.subgraphs ++ extra)[g.root]? = some root := by
    rw [List.getElem?_append_left (List.getElem?_eq_some_iff.mp hroot).1, hroot]
  have hext : Settled { g with subgraphs := g.subgraphs ++ extra } := by
    intro sg hsg
    exact Option.some.inj (hroot'.symm.trans hsg) ▸ hs
  unfold appendAtTail
  cases ha : root.appendNode env n with
  | none =>
    rw [truncate_append]
    exact clean_fail g _
  | some row =>
    obtain ⟨sg,id⟩ := row
    obtain ⟨happ,-⟩ := Subgraph.appended hs ha
    dsimp only
    rw [if_neg hs.tail_ne]
    cases he : sg.addEdge env root.tail id with
    | none =>
      rw [happ.dropNode hs, put_self hroot', truncate_append]
      exact clean_fail g _
    | some sg' =>
      exact .inr ⟨rfl,hext.put fun _ => Subgraph.addEdge_settled (happ.settled hs) he⟩

theorem appendAtTail_clean_self (hg : g.Settled) (hroot : g.subgraphs[g.root]? = some root)
    (version : Nat) (nodeMessage edgeMessage : String) :
    g.Clean (g.appendAtTail env version g.subgraphs.length root n nodeMessage edgeMessage) := by
  have h := @appendAtTail_clean g env root n hg hroot [] version nodeMessage edgeMessage
  rwa [List.append_nil] at h

/-! ### Detached nodes -/

section

variable (hg : g.Settled)

include hg

theorem createSubgraph_clean (t : TypeDesc) : g.Clean (reported (g.createSubgraph env t)) := by
  unfold createSubgraph
  cases env.version 0 with
  | none => exact clean_refuse g _
  | some version =>
    split_ifs
    · exact clean_refuse g _
    · exact clean_refuse g _
    refine .inr ⟨rfl,fun root hroot => ?_⟩
    have hroot : (g.subgraphs ++ _)[g.root]? = some root := hroot
    rw [List.getElem?_append] at hroot
    split_ifs at hroot
    · exact hg root hroot
    · obtain ⟨-,rfl⟩ := List.getElem?_eq_some_iff.mp hroot
      simp only [List.getElem_singleton]
      exact ⟨(by decide : 0 ≠ invalidId),(by decide : 1 ≤ invalidId),.ofInput t,rfl,rfl⟩

theorem createAdapterNode_clean (op : FlowOp) (fn : FnDesc) (input output : TypeDesc) :
    g.Clean (reported (g.createAdapterNode env id op fn input output)) := by
  unfold createAdapterNode
  cases hsg : g.subgraphs[id]? with
  | none => exact clean_refuse g _
  | some sg =>
    split_ifs
    · exact insertNode_clean hg hsg _
    · exact clean_refuse g _

theorem createNode_clean (op : FlowOp) (fn : FnDesc) (nested : List Nat) :
    g.Clean (reported (g.createNode env id op fn nested)) := by
  unfold createNode
  cases hsg : g.subgraphs[id]? with
  | none => exact clean_refuse g _
  | some sg =>
    cases g.deriveNode env op fn nested with
    | error message => exact clean_refuse g _
    | ok n => exact insertNode_clean hg hsg _

theorem createSliceNode_clean (op : FlowOp) (t : TypeDesc) (limit : Nat) :
    g.Clean (reported (g.createSliceNode env id op t limit)) := by
  unfold createSliceNode
  cases hsg : g.subgraphs[id]? with
  | none => exact clean_refuse g _
  | some sg =>
    split_ifs
    · exact clean_refuse g _
    · exact clean_refuse g _
    · exact insertNode_clean hg hsg _

theorem createDistinctNode_clean (t : TypeDesc) (maxUnique : Nat) :
    g.Clean (reported (g.createDistinctNode env id t maxUnique)) := by
  unfold createDistinctNode
  cases hsg : g.subgraphs[id]? with
  | none => exact clean_refuse g _
  | some sg =>
    split_ifs
    · exact clean_refuse g _
    · exact insertNode_clean hg hsg _
    · exact clean_refuse g _

theorem createSortedNode_clean (t : TypeDesc) (maxElements : Nat) :
    g.Clean (reported (g.createSortedNode env id t maxElements)) := by
  unfold createSortedNode
  cases hsg : g.subgraphs[id]? with
  | none => exact clean_refuse g _
  | some sg =>
    split_ifs
    · exact clean_refuse g _
    · exact insertNode_clean hg hsg _
    · exact clean_refuse g _

theorem createSeededReduceNode_clean (reducer : FnDesc) (seed : Option Nat) :
    g.Clean (reported (g.createSeededReduceNode env id reducer seed)) := by
  unfold createSeededReduceNode
  cases hsg : g.subgraphs[id]? with
  | none => exact .inl ⟨g.error,rfl⟩
  | some sg =>
    rcases g.buildSeededReduceNode env reducer seed with (_ | message) | n
    · exact .inl ⟨g.error,rfl⟩
    · exact clean_refuse g message
    · exact insertNode_clean hg hsg _

theorem createRelationNode_clean (input : TypeDesc) (branches : List Nat) (schema : RelationSchema)
    (reducer : FnDesc) :
    g.Clean (reported (g.createRelationNode env id input branches schema reducer)) := by
  unfold createRelationNode
  cases hsg : g.subgraphs[id]? with
  | none => exact clean_refuse g _
  | some sg =>
    dsimp only
    by_cases hb : branches.isEmpty = true
    · rw [if_pos hb]
      exact clean_refuse g _
    · rw [if_neg hb]
      cases schema.schemaError with
      | some message => exact clean_refuse g _
      | none =>
        cases g.relationTyping env input branches schema reducer with
        | error message => exact clean_refuse g _
        | ok output =>
          split_ifs
          · exact insertNode_clean hg hsg _
          · exact clean_refuse g _

theorem connect_clean (e : GraphEdge) : g.Clean (g.connect env id e) := by
  unfold connect
  cases hsg : g.subgraphs[id]? with
  | none => exact clean_fail g _
  | some sg =>
    dsimp only
    split
    · split_ifs
      · exact clean_fail g _
      cases env.version 0 with
      | none => exact clean_fail g _
      | some version =>
        cases he : sg.pushEdge env e with
        | none => exact clean_fail g _
        | some sg' =>
          refine .inr ⟨rfl,hg.put fun hid => ?_⟩
          exact Subgraph.pushEdge_settled (hg sg (hid ▸ hsg)) he
    · exact clean_fail g _

theorem setSubgraphExit_clean (exit : Nat) : g.Clean (g.setSubgraphExit env id exit) := by
  unfold setSubgraphExit
  cases hsg : g.subgraphs[id]? with
  | none => exact clean_fail g _
  | some sg =>
    dsimp only
    cases hn : sg.nodes[exit]? with
    | none => exact clean_fail g _
    | some n =>
      cases env.version 0 with
      | none => exact clean_fail g _
      | some version =>
        refine .inr ⟨rfl,hg.put fun hid => ?_⟩
        have hs : sg.Settled := hg sg (hid ▸ hsg)
        exact ⟨hs.opened,hs.bounded,n,hn,rfl⟩

end

/-! ### Appended operators -/

theorem addSlice_clean (hg : g.Settled) (op : FlowOp) (limit : Nat) :
    g.Clean (g.addSlice env op limit) := by
  unfold addSlice
  cases hroot : g.subgraphs[g.root]? with
  | none => exact clean_fail g _
  | some root =>
    split_ifs
    · exact clean_fail g _
    · cases env.version 0 with
      | none => exact clean_fail g _
      | some version => exact appendAtTail_clean_self hg hroot _ _ _

theorem distinct_clean (hg : g.Settled) (maxUnique : Nat) : g.Clean (g.distinct env maxUnique) := by
  unfold distinct
  cases hroot : g.subgraphs[g.root]? with
  | none => exact clean_fail g _
  | some root =>
    dsimp only
    split_ifs
    · exact clean_fail g _
    · exact clean_fail g _
    · cases env.version 0 with
      | none => exact clean_fail g _
      | some version => exact appendAtTail_clean_self hg hroot _ _ _

theorem reduceSeeded_clean (hg : g.Settled) (reducer : FnDesc) (seed : Option Nat) :
    g.Clean (g.reduceSeeded env reducer seed) := by
  unfold reduceSeeded
  cases hroot : g.subgraphs[g.root]? with
  | none => exact clean_fail g _
  | some root =>
    rcases g.buildSeededReduceNode env reducer seed with (_ | message) | n
    · exact .inl ⟨g.error,rfl⟩
    · exact clean_fail g message
    dsimp only
    split_ifs
    · exact clean_fail g _
    · cases env.version 0 with
      | none => exact clean_fail g _
      | some version => exact appendAtTail_clean_self hg hroot _ _ _

variable {k : Nat}

theorem importGraph_eq {src : Graph} (h : g.importGraph env k src = some (g', id)) :
    ∃ extra, g' = { g with subgraphs := g.subgraphs ++ extra } := by
  unfold importGraph at h
  dsimp only at h
  split_ifs at h
  obtain ⟨copies,-,h⟩ := Option.map_eq_some_iff.mp h
  cases h
  exact ⟨_,rfl⟩

theorem addNode_clean (hg : g.Settled) (hroot : g.subgraphs[g.root]? = some root) (version : Nat)
    (nested : Option Graph) : g.Clean (g.addNode env version root n nested) := by
  unfold addNode
  cases nested with
  | none => exact appendAtTail_clean_self hg hroot _ _ _
  | some branch =>
    dsimp only
    cases hi : g.importGraph env 0 branch with
    | none => exact clean_fail g _
    | some row =>
      obtain ⟨g',id⟩ := row
      obtain ⟨extra,rfl⟩ := importGraph_eq hi
      dsimp only
      split_ifs
      · rw [truncate_append]
        exact clean_fail g _
      · exact appendAtTail_clean hg hroot extra _ _ _

theorem add_clean (hg : g.Settled) (op : FlowOp) (fn : FnDesc) (nested : Option Graph) :
    g.Clean (g.add env op fn nested) := by
  unfold add
  cases hroot : g.subgraphs[g.root]? with
  | none => exact clean_fail g _
  | some root =>
    rcases callableTyping env op fn "unsupported graph operator" with message | ⟨schema,sig⟩
    · exact clean_fail g message
    cases env.version 0 with
    | none => exact clean_fail g _
    | some version =>
      cases ht : g.addedTyping root schema sig nested with
      | error message =>
        simp only [ht]
        exact clean_fail g message
      | ok output =>
        simp only [ht]
        exact addNode_clean hg hroot version nested

/-! ### Relations -/

theorem importBranches_eq {input : TypeDesc} {output : Option TypeDesc}
    {row : Graph × List Nat × Option TypeDesc}
    (h : importBranches env input k output branches g = .ok row) :
    ∃ extra, row.1 = { g with subgraphs := g.subgraphs ++ extra } := by
  induction branches generalizing k output g row with
  | nil =>
    cases h
    exact ⟨[],by simp⟩
  | cons b rest ih =>
    unfold importBranches at h
    cases hb : b.subgraphs[b.root]? with
    | none => simp [hb] at h
    | some branch =>
      simp only [hb] at h
      split_ifs at h
      cases hi : g.importGraph env k b with
      | none => simp [hi] at h
      | some pair =>
        simp only [hi] at h
        cases hr : importBranches env input (k+1) (some (output.getD branch.outputType)) rest
            pair.1 with
        | error message => simp [hr, bind, Except.bind] at h
        | ok found =>
          simp only [hr, bind, Except.bind, Except.ok.injEq] at h
          subst h
          obtain ⟨first,hfirst⟩ := importGraph_eq hi
          obtain ⟨more,hmore⟩ := ih hr
          exact ⟨first ++ more,by rw [hmore, hfirst]; simp⟩

theorem clone_graph_settled (hg : g.Settled) (h : g.clone env k = some g') : g'.Settled := by
  unfold clone at h
  by_cases hroot : g.subgraphs.length ≤ g.root
  · rw [if_pos hroot] at h
    cases h
  rw [if_neg hroot] at h
  cases hv : env.version 0 with
  | none => simp [hv] at h
  | some version =>
    simp only [hv] at h
    rw [ite_eq_iff] at h
    obtain ⟨-,h⟩ | ⟨-,h⟩ := h
    · cases h
    obtain ⟨copies,hcopies,rfl⟩ := Option.map_eq_some_iff.mp h
    intro sg hsg
    obtain ⟨hlen,hget⟩ := mapM_getElem? hcopies
    have hlt := not_le.mp hroot
    obtain ⟨copy,hcopy,hclone⟩ := hget g.root (g.subgraphs[g.root],g.root) (by simp)
    rw [hcopy] at hsg
    cases hsg
    exact Subgraph.clone_settled (hg _ (List.getElem?_eq_getElem hlt)) hclone

variable {reducer : FnDesc}

theorem joinBranches_settled {version : Nat} {folded : Option TypeDesc} (hg : g.Settled)
    (hroot : g.subgraphs[g.root]? = some root)
    (h : g.joinBranches env version root folded branches schema reducer = .ok g') : g'.Settled := by
  have hs : root.Settled := hg root hroot
  unfold joinBranches at h
  cases hi : importBranches env root.outputType 0 folded branches g with
  | error message => simp [hi] at h
  | ok row =>
    obtain ⟨work,ids,output⟩ := row
    obtain ⟨extra,hwork⟩ := importBranches_eq hi
    have hwork : work = { g with subgraphs := g.subgraphs ++ extra } := hwork
    have hext : work.Settled := by
      intro sg hsg
      rw [hwork] at hsg
      rw [List.getElem?_append_left (List.getElem?_eq_some_iff.mp hroot).1, hroot] at hsg
      exact Option.some.inj hsg ▸ hs
    simp only [hi] at h
    split at h
    · cases h
    next sg id ha =>
      obtain ⟨happ,-⟩ := Subgraph.appended hs ha
      rw [if_neg hs.tail_ne] at h
      split at h
      · cases h
      · next sg' he =>
          cases h
          exact hext.put fun _ => Subgraph.addEdge_settled (happ.settled hs) he

theorem buildRelation_settled (hg : g.Settled)
    (h : g.buildRelation env branches schema reducer = .ok g') : g'.Settled := by
  unfold buildRelation at h
  split at h
  · cases h
  next root hroot =>
    split at h
    · cases h
    · cases h
    split at h
    · cases h
    · split_ifs at h
      exact joinBranches_settled hg hroot h

theorem relation_clean (hg : g.Settled) (branches : List Graph) (schema : RelationSchema)
    (reducer : FnDesc) : g.Clean (g.relation env branches schema reducer) := by
  unfold relation
  cases hc : g.clone env branches.length with
  | none => exact clean_fail g _
  | some work =>
    dsimp only
    cases hb : work.buildRelation env.later branches schema reducer with
    | error message => exact clean_fail g message
    | ok work' =>
      dsimp only
      cases work'.validate env.index with
      | some message => exact clean_fail g message
      | none => exact .inr ⟨rfl,buildRelation_settled (clone_graph_settled hg hc) hb⟩

end Graph

end Salts.CFlow
