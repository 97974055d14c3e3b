import Salts.CFlowGraph

/-!
What `cflow_graph_validate` accepts: the edges of every subgraph are the steps of one path from its
entry to its tail through every node.
-/

namespace Salts.CFlow

open SuccessorTrail
open TypeDesc (equal_symm equal_trans)
open Option (any_eq_true or_eq_none_iff some)

/-! ### What the index holds -/

variable {x index : SuccessorIndex} {e : GraphEdge} {t v k : Nat}

namespace SuccessorIndex

variable {n : Nat} {es : List GraphEdge}

abbrev ofEdges (n : Nat) (es : List GraphEdge) : SuccessorIndex := es.foldl addEdge { nodeCount := n }

theorem addEdge_nodeCount (x : SuccessorIndex) (e : GraphEdge) :
    (x.addEdge e).nodeCount = x.nodeCount := by
  unfold addEdge
  repeat' split
  all_goals rfl

theorem ofEdges_nodeCount (n : Nat) (es : List GraphEdge) : (ofEdges n es).nodeCount = n := by
  induction es using List.reverseRecOn with
  | nil => rfl
  | append_singleton es e ih => rw [ofEdges, List.foldl_concat, addEdge_nodeCount, ih]

theorem addEdge_of_none (h : x.successors e.source = none) :
    x.addEdge e = { x with successors := Function.update x.successors e.source (some e.target) } := by
  unfold addEdge
  rw [h]

theorem addEdge_of_some (h : x.successors e.source = some t) :
    (x.addEdge e).successors = x.successors ∧ (x.addEdge e).firstFanout.isSome = true := by
  unfold addEdge
  rw [h]
  dsimp only
  split
  · exact ⟨rfl,rfl⟩
  rename_i first hfirst
  split_ifs
  · exact ⟨rfl,rfl⟩
  · exact ⟨rfl,by rw [hfirst]; rfl⟩

theorem ofEdges_successors (n : Nat) (es : List GraphEdge) (v : Nat) :
    (ofEdges n es).successors v = (es.find? fun e => e.source == v).map (·.target) := by
  induction es using List.reverseRecOn with
  | nil => rfl
  | append_singleton es e ih =>
    rw [ofEdges, List.foldl_concat, List.find?_append]
    cases hs : (ofEdges n es).successors e.source with
    | none =>
      rw [addEdge_of_none hs]
      by_cases hv : v = e.source
      · subst hv
        rw [ih] at hs
        rw [Option.map_eq_none_iff.1 hs]
        simp
      · have hne := beq_false_of_ne (Ne.symm hv)
        show Function.update _ _ _ v = _
        rw [Function.update_of_ne hv, ih]
        simp [hne]
    | some t =>
      rw [(addEdge_of_some hs).1, ih]
      by_cases hv : v = e.source
      · subst hv
        rw [ih] at hs
        obtain ⟨x,hx,-⟩ := Option.map_eq_some_iff.1 hs
        rw [hx]
        rfl
      · have hne := beq_false_of_ne (Ne.symm hv)
        simp [hne]

theorem ofEdges_successors_none : (ofEdges n es).successors v = none ↔ v ∉ es.map (·.source) := by
  rw [ofEdges_successors]
  simp

theorem ofEdges_firstFanout (n : Nat) (es : List GraphEdge) :
    (ofEdges n es).firstFanout = none ↔ (es.map (·.source)).Nodup := by
  induction es using List.reverseRecOn with
  | nil => exact ⟨fun _ => List.nodup_nil,fun _ => rfl⟩
  | append_singleton es e ih =>
    have hnodup : ((es ++ [e]).map (·.source)).Nodup ↔
        (es.map (·.source)).Nodup ∧ e.source ∉ es.map (·.source) := by
      rw [List.map_append, List.map_singleton, List.nodup_append]
      simp only [List.nodup_singleton, List.mem_singleton, true_and, and_congr_right_iff]
      intro _
      constructor
      · exact fun h hmem => h _ hmem _ rfl rfl
      · rintro h a ha b rfl rfl
        exact h ha
    rw [hnodup, ← ih, ← ofEdges_successors_none, ofEdges, List.foldl_concat]
    cases hs : (ofEdges n es).successors e.source with
    | none =>
      rw [addEdge_of_none hs]
      simp
    | some t =>
      have hfan := (addEdge_of_some hs).2
      constructor
      · intro h
        rw [h] at hfan
        cases hfan
      · rintro ⟨-,h⟩
        cases h

theorem ofEdges_firstFanout_mem (h : (ofEdges n es).firstFanout = some v) :
    v ∈ es.map (·.source) := by
  induction es using List.reverseRecOn with
  | nil => cases h
  | append_singleton es e ih =>
    rw [ofEdges, List.foldl_concat, addEdge] at h
    rw [List.map_append, List.mem_append, List.map_singleton, List.mem_singleton]
    repeat' split at h
    · exact .inl (ih h)
    · exact .inr (some.inj h).symm
    · exact .inr (some.inj h).symm
    · exact .inl (ih h)

theorem ofEdges_mem (h : (es.map (·.source)).Nodup) :
    (ofEdges n es).successors v = some t ↔ (v, t) ∈ es.map fun e => (e.source, e.target) := by
  rw [ofEdges_successors, Option.map_eq_some_iff, List.mem_map]
  constructor
  · rintro ⟨e,he,rfl⟩
    have hv := List.find?_some he
    rw [beq_iff_eq] at hv
    exact ⟨e,List.mem_of_find?_eq_some he,by rw [hv]⟩
  · rintro ⟨e,he,heq⟩
    obtain ⟨rfl,rfl⟩ := Prod.mk.inj heq
    cases hf : es.find? fun x => x.source == e.source with
    | none =>
      rw [List.find?_eq_none] at hf
      exact absurd (beq_self_eq_true _) (hf e he)
    | some x =>
      have hx := List.find?_some hf
      rw [beq_iff_eq] at hx
      have hxe : x = e := List.inj_on_of_nodup_map h (List.mem_of_find?_eq_some hf) he hx
      exact ⟨x,rfl,by rw [hxe]⟩

end SuccessorIndex

/-! ### One path -/

/-- The edges of the subgraph are the steps of the path, which starts at the entry, ends at the tail
and visits every node once. -/
structure SinglePath (sg : Subgraph) (path : List Nat) : Prop where
  starts : path.head? = some sg.entry
  ends : path.getLast? = some sg.tail
  visits : path.Perm (List.range sg.nodes.length)
  edges : (sg.edges.map fun e => (e.source, e.target)).Perm (path.zip path.tail)

namespace SinglePath

variable {sg : Subgraph} {path : List Nat}

open SuccessorIndex

structure Checked (sg : Subgraph) (index : SuccessorIndex) : Prop where
  exit : index.successors sg.tail = none
  fanout : index.firstFanout = none
  topology : Graph.topologyError index sg.entry = none

theorem topologyError_eq_none {entry : Nat} :
    Graph.topologyError index entry = none ↔
      walk index.successors index.nodeCount entry 0 = some index.nodeCount := by
  unfold Graph.topologyError
  split
  · rename_i h
    rw [h]
    exact ⟨fun hc => (by cases hc),fun hc => (by cases hc)⟩
  · rename_i visited h
    rw [h]
    split_ifs with hv
    · exact ⟨fun hc => (by cases hc),fun hc => absurd (some.inj hc) hv⟩
    · exact ⟨fun _ => by rw [not_not.1 hv],fun _ => rfl⟩

theorem zip_map_fst_nodup (h : path.Nodup) : ((path.zip path.tail).map Prod.fst).Nodup :=
  h.sublist (map_fst_zip_sublist path path.tail)

theorem of_checked (hrange : ∀ e ∈ sg.edges, e.source < sg.nodes.length ∧
      e.target < sg.nodes.length) (hentry : sg.entry < sg.nodes.length)
    (htail : sg.tail < sg.nodes.length) (h : Checked sg (ofEdges sg.nodes.length sg.edges)) :
    ∃ path, SinglePath sg path := by
  have hnodup := (ofEdges_firstFanout _ _).1 h.fanout
  have htopology := topologyError_eq_none.1 h.topology
  rw [ofEdges_nodeCount] at htopology
  obtain ⟨path,htrail,hlen⟩ := trail_of_walk htopology
  rw [Nat.zero_add] at hlen
  -- the trail stays among the nodes
  have hlt : ∀ x ∈ path, x < sg.nodes.length := by
    intro x hx
    by_cases hxe : x = sg.entry
    · rw [hxe]
      exact hentry
    · obtain ⟨y,hy⟩ := htrail.mem_of_ne_head hx hxe
      obtain ⟨e,he,heq⟩ := List.mem_map.1 ((ofEdges_mem hnodup).1 hy)
      rw [← (Prod.mk.inj heq).2]
      exact (hrange e he).2
  have hvisits := perm_range htrail.nodup hlt hlen.symm
  have hmem := (hvisits.mem_iff).2 (List.mem_range.2 htail)
  refine ⟨path,htrail.head,htrail.last_of_none hmem h.exit,hvisits,?_⟩
  have hzip := (zip_map_fst_nodup htrail.nodup).of_map
  have hpairs : (sg.edges.map fun e => (e.source,e.target)).Nodup := by
    refine List.Nodup.of_map Prod.fst ?_
    rw [List.map_map]
    exact hnodup
  refine (List.perm_ext_iff_of_nodup hpairs hzip).2 fun ⟨a,b⟩ => ?_
  rw [htrail.mem_zip, ← ofEdges_mem hnodup]
  constructor
  · intro hab
    refine ⟨(hvisits.mem_iff).2 (List.mem_range.2 ?_),hab⟩
    obtain ⟨e,he,heq⟩ := List.mem_map.1 ((ofEdges_mem hnodup).1 hab)
    rw [← (Prod.mk.inj heq).1]
    exact (hrange e he).1
  · exact fun hab => hab.2

section

variable (h : SinglePath sg path)

include h

theorem nodup : path.Nodup := h.visits.nodup_iff.2 List.nodup_range

theorem sources_nodup : (sg.edges.map (·.source)).Nodup := by
  have hsources : sg.edges.map (·.source) =
      (sg.edges.map fun e => (e.source,e.target)).map Prod.fst := by
    rw [List.map_map]
    rfl
  rw [hsources, (h.edges.map Prod.fst).nodup_iff]
  exact zip_map_fst_nodup h.nodup

theorem trail : Trail (ofEdges sg.nodes.length sg.edges).successors sg.entry path := by
  have hnext : ∀ a b, (ofEdges sg.nodes.length sg.edges).successors a = some b ↔
      (a,b) ∈ path.zip path.tail := by
    intro a b
    rw [ofEdges_mem h.sources_nodup, h.edges.mem_iff]
  refine .of_zip h.starts (fun a b hab => (hnext a b).2 hab) fun y hy => ?_
  -- the last node is the first of no step
  by_contra hne
  obtain ⟨b,hb⟩ := Option.ne_none_iff_exists'.1 hne
  exact not_mem_zip_of_getLast h.nodup hy ((hnext _ b).1 hb)

theorem checked : Checked sg (ofEdges sg.nodes.length sg.edges) := by
  have hlen : path.length = sg.nodes.length := by
    rw [h.visits.length_eq, List.length_range]
  obtain ⟨y,hy,hexit⟩ := h.trail.getLast
  rw [h.ends, some.injEq] at hy
  refine ⟨hy ▸ hexit,(ofEdges_firstFanout _ _).2 h.sources_nodup,topologyError_eq_none.2 ?_⟩
  rw [ofEdges_nodeCount, walk_of_trail h.trail hlen.le, hlen, Nat.zero_add]

end

end SinglePath

/-! ### Rule by rule -/

namespace Graph

variable {g : Graph} {n : GraphNode} {sg : Subgraph}

/-! ### Relations -/

def TypedBranch (g : Graph) (n : GraphNode) (output : TypeDesc → Prop) (bid : Nat) : Prop :=
  ∃ branch, g.subgraphs[bid]? = some branch ∧ branch.inputType.equal n.inputType = true ∧
    output branch.outputType

def RelationTyped (g : Graph) (n : GraphNode) (result : RelResult) : Prop :=
  match result with
  | .invoke => ∃ sig, n.signature = some sig ∧ sig.protocol = .value ∧ sig.params.length = 2 ∧
      n.subgraphs.length = 2 ∧ n.outputType.equal sig.returnType = true ∧
      ∀ (k bid : Nat), n.subgraphs[k]? = some bid →
        g.TypedBranch n (fun t => typeIs sig.params[k]? t = true) bid
  | .fold => (∀ bid ∈ n.subgraphs, g.TypedBranch n (fun t => n.outputType.equal t = true) bid) ∧
      ∃ sig, n.signature = some sig ∧ sig.params.length = 2 ∧
        (∀ t ∈ sig.params, t.equal n.outputType = true) ∧ sig.returnType.equal n.outputType = true
  | .select => (∀ bid ∈ n.subgraphs, g.TypedBranch n (fun t => n.outputType.equal t = true) bid) ∧
      n.fn = none

variable {bids : List Nat}

theorem branchError_invoke {homogeneous : Option TypeDesc} :
    g.branchError n .invoke k homogeneous bids = none ↔
      ∀ (j bid : Nat), bids[j]? = some bid → g.TypedBranch n (fun t => ∃ sig, n.signature = some sig ∧
        sig.params.length = n.subgraphs.length ∧ typeIs sig.params[k + j]? t = true) bid := by
  induction bids generalizing k with
  | nil => simp [branchError]
  | cons bid rest ih =>
    have hrest : (∀ j b, (bid :: rest)[j]? = some b → g.TypedBranch n (fun t => ∃ sig,
          n.signature = some sig ∧ sig.params.length = n.subgraphs.length ∧
            typeIs sig.params[k+j]? t = true) b) ↔
        g.TypedBranch n (fun t => ∃ sig, n.signature = some sig ∧
            sig.params.length = n.subgraphs.length ∧ typeIs sig.params[k]? t = true) bid ∧
          ∀ j b, rest[j]? = some b → g.TypedBranch n (fun t => ∃ sig, n.signature = some sig ∧
            sig.params.length = n.subgraphs.length ∧
              typeIs sig.params[k+1+j]? t = true) b := by
      constructor
      · intro h
        refine ⟨h 0 bid rfl,fun j b hj => ?_⟩
        have := h (j+1) b hj
        rwa [show k+(j+1) = k+1+j by omega] at this
      · rintro ⟨h0,h⟩ j b hj
        cases j with
        | zero =>
          cases hj
          exact h0
        | succ j =>
          rw [show k+(j+1) = k+1+j by omega]
          exact h j b hj
    rw [hrest, ← ih, branchError]
    cases hb : g.subgraphs[bid]? with
    | none =>
      simp [TypedBranch, hb]
    | some branch =>
      dsimp only
      rw [if_pos (rfl)]
      split_ifs with hinput hany
      · simp [TypedBranch, hb, hinput]
      · have htyped : g.TypedBranch n (fun t => ∃ sig, n.signature = some sig ∧
            sig.params.length = n.subgraphs.length ∧ typeIs sig.params[k]? t = true) bid := by
          rw [any_eq_true] at hany
          obtain ⟨sig,hsig,hty⟩ := hany
          rw [Bool.and_eq_true, beq_iff_eq] at hty
          exact ⟨branch,hb,by simpa using hinput,sig,hsig,hty.1,hty.2⟩
        exact ⟨fun h => ⟨htyped,h⟩,fun h => h.2⟩
      · refine ⟨fun hc => (by cases hc),fun h => absurd ?_ hany⟩
        obtain ⟨⟨b,hb',-,sig,hsig,hlen,hty⟩,-⟩ := h
        obtain rfl := some.inj (hb'.symm.trans hb)
        rw [hsig, Option.any_some, hlen, beq_self_eq_true, Bool.true_and]
        exact hty

theorem branchError_homogeneous {result : RelResult} (hr : result ≠ .invoke) {t : TypeDesc} :
    g.branchError n result k (some t) bids = none ↔
      ∀ bid ∈ bids, g.TypedBranch n (fun u => t.equal u = true) bid := by
  induction bids generalizing k with
  | nil => simp [branchError]
  | cons bid rest ih =>
    rw [List.forall_mem_cons, ← ih, branchError]
    cases hb : g.subgraphs[bid]? with
    | none => simp [TypedBranch, hb]
    | some branch =>
      dsimp only
      split_ifs with hinput hequal
      · simp [TypedBranch, hb, hinput]
      · have htyped : g.TypedBranch n (fun u => t.equal u = true) bid :=
          ⟨branch,hb,by simpa using hinput,hequal⟩
        exact ⟨fun h => ⟨htyped,h⟩,fun h => h.2⟩
      · refine ⟨fun hc => (by cases hc),fun h => absurd ?_ hequal⟩
        obtain ⟨⟨b,hb',-,hty⟩,-⟩ := h
        obtain rfl := some.inj (hb'.symm.trans hb)
        exact hty

theorem branches_homogeneous (result : RelResult) (hr : result ≠ .invoke) (hne : n.subgraphs ≠ []) :
    (g.branchError n result 0 none n.subgraphs = none ∧
      typeIs ((n.subgraphs.head?).bind g.subgraphOutputType) n.outputType = true) ↔
      ∀ bid ∈ n.subgraphs, g.TypedBranch n (fun t => n.outputType.equal t = true) bid := by
  cases hs : n.subgraphs with
  | nil => exact absurd hs hne
  | cons bid rest =>
    rw [List.forall_mem_cons, branchError, List.head?_cons, Option.bind_some]
    cases hb : g.subgraphs[bid]? with
    | none => simp [TypedBranch, hb]
    | some branch =>
      have hout : g.subgraphOutputType bid = some branch.outputType := by
        rw [subgraphOutputType, hb, Option.map_some]
      dsimp only
      rw [hout, Option.getD_none]
      split_ifs with hinput hself
      · simp [TypedBranch, hb, hinput]
      · rw [branchError_homogeneous hr]
        constructor
        · rintro ⟨hrest,hty⟩
          refine ⟨⟨branch,hb,by simpa using hinput,equal_symm hty⟩,fun b hmem => ?_⟩
          obtain ⟨x,hx,hin,hxo⟩ := hrest b hmem
          exact ⟨x,hx,hin,equal_trans (equal_symm hty) hxo⟩
        · rintro ⟨⟨b,hb',-,hty⟩,hrest⟩
          obtain rfl := some.inj (hb'.symm.trans hb)
          refine ⟨fun b hmem => ?_,equal_symm hty⟩
          obtain ⟨x,hx,hin,hxo⟩ := hrest b hmem
          exact ⟨x,hx,hin,equal_trans (equal_symm hty) hxo⟩
      · constructor
        · rintro ⟨hc,-⟩
          cases hc
        · rintro ⟨⟨b,hb',-,hty⟩,-⟩
          obtain rfl := some.inj (hb'.symm.trans hb)
          rw [TypeDesc.equal_self] at hself
          exact absurd (TypeDesc.equal_iff.1 hty).2.1 hself

theorem invoke_typed (hne : n.subgraphs ≠ []) :
    (g.branchError n .invoke 0 none n.subgraphs = none ∧ g.resultError n .invoke = none) ↔
      g.RelationTyped n .invoke := by
  have hresult : g.resultError n .invoke = none ↔ ∃ sig, n.signature = some sig ∧
      sig.protocol = .value ∧ sig.params.length = 2 ∧ n.outputType.equal sig.returnType = true := by
    have hany : (n.signature.any fun sig => sig.protocol == .value && sig.params.length == 2 &&
        n.outputType.equal sig.returnType) = true ↔ ∃ sig, n.signature = some sig ∧
        sig.protocol = .value ∧ sig.params.length = 2 ∧
          n.outputType.equal sig.returnType = true := by
      simp [any_eq_true, and_assoc]
    rw [← hany]
    simp [resultError]
  rw [branchError_invoke, hresult]
  constructor
  · rintro ⟨hbranches,sig,hsig,hprotocol,hparams,hreturn⟩
    have hbranch : ∀ (k bid : Nat), n.subgraphs[k]? = some bid → g.TypedBranch n (fun t =>
        n.subgraphs.length = 2 ∧ typeIs sig.params[k]? t = true) bid := by
      intro k bid hk
      obtain ⟨branch,hb,hin,sig',hsig',hlen,hty⟩ := hbranches k bid hk
      obtain rfl := some.inj (hsig'.symm.trans hsig)
      rw [Nat.zero_add] at hty
      exact ⟨branch,hb,hin,hlen.symm.trans hparams,hty⟩
    obtain ⟨bid,rest,hs⟩ := List.exists_cons_of_ne_nil hne
    obtain ⟨-,-,-,htwo,-⟩ := hbranch 0 bid (by rw [hs]; rfl)
    refine ⟨sig,hsig,hprotocol,hparams,htwo,hreturn,fun k b hk => ?_⟩
    obtain ⟨branch,hb,hin,-,hty⟩ := hbranch k b hk
    exact ⟨branch,hb,hin,hty⟩
  · rintro ⟨sig,hsig,hprotocol,hparams,htwo,hreturn,hbranches⟩
    refine ⟨fun k bid hk => ?_,sig,hsig,hprotocol,hparams,hreturn⟩
    obtain ⟨branch,hb,hin,hty⟩ := hbranches k bid hk
    rw [Nat.zero_add]
    exact ⟨branch,hb,hin,sig,hsig,hparams.trans htwo.symm,hty⟩

theorem fold_reducer {t u : TypeDesc} (ht : t.equal u = true) {sig : SigDesc} :
    (sig.params.length == 2 && (typeIs sig.params[0]? t && typeIs sig.params[1]? t &&
      sig.returnType.equal t)) = true ↔
      sig.params.length = 2 ∧ (∀ p ∈ sig.params, p.equal u = true) ∧
        sig.returnType.equal u = true := by
  have hiff : ∀ p : TypeDesc, p.equal t = true ↔ p.equal u = true := fun p =>
    ⟨fun h => equal_trans h ht,fun h => equal_trans h (equal_symm ht)⟩
  simp only [Bool.and_eq_true, beq_iff_eq, hiff]
  refine and_congr_right fun hlen => and_congr_left fun _ => ?_
  obtain ⟨p,q,hpq⟩ := List.length_eq_two.1 hlen
  rw [hpq]
  simp [typeIs, hiff]

theorem fold_typed (hne : n.subgraphs ≠ []) :
    (g.branchError n .fold 0 none n.subgraphs = none ∧ g.resultError n .fold = none) ↔
      g.RelationTyped n .fold := by
  rw [RelationTyped, ← branches_homogeneous .fold (by decide) hne, resultError]
  cases hh : (n.subgraphs.head?).bind g.subgraphOutputType with
  | none => simp [typeIs]
  | some t =>
    have hreducer (ht : t.equal n.outputType = true) :
        (n.signature.any fun sig => sig.params.length == 2 && ((some t).any fun u =>
          typeIs sig.params[0]? u && typeIs sig.params[1]? u && sig.returnType.equal u)) = true ↔
        ∃ sig, n.signature = some sig ∧ sig.params.length = 2 ∧
          (∀ p ∈ sig.params, p.equal n.outputType = true) ∧
          sig.returnType.equal n.outputType = true := by
      rw [any_eq_true]
      simp [fold_reducer ht]
    rw [and_assoc]
    refine and_congr_right fun _ => ?_
    by_cases ht : t.equal n.outputType = true
    · have htype : typeIs (some t) n.outputType = true := ht
      rw [htype, if_neg (by decide), ← hreducer ht]
      split_ifs with h
      · exact ⟨fun _ => ⟨rfl,h⟩,fun _ => rfl⟩
      · exact ⟨fun hc => (by cases hc),fun hc => absurd hc.2 h⟩
    · have htype : typeIs (some t) n.outputType = false := by simpa [typeIs] using ht
      rw [htype, if_pos rfl]
      exact ⟨fun hc => (by cases hc),fun hc => (by cases hc.1)⟩

theorem select_typed (hne : n.subgraphs ≠ []) :
    (g.branchError n .select 0 none n.subgraphs = none ∧ g.resultError n .select = none) ↔
      g.RelationTyped n .select := by
  rw [RelationTyped, ← branches_homogeneous .select (by decide) hne, resultError, and_assoc]
  refine and_congr_right fun _ => ?_
  cases typeIs ((n.subgraphs.head?).bind g.subgraphOutputType) n.outputType with
  | false => simp
  | true => simp

def RelationOk (g : Graph) (n : GraphNode) : Prop :=
  n.op = .relation → ∃ schema, n.relation = some schema ∧ n.subgraphs ≠ [] ∧
    schema.schemaError = none ∧ g.RelationTyped n schema.result

theorem relationError_eq_none : g.relationError n = none ↔ g.RelationOk n := by
  unfold relationError RelationOk
  by_cases hop : n.op = .relation
  swap
  · rw [if_pos hop]
    exact ⟨fun _ h => absurd h hop,fun _ => rfl⟩
  rw [if_neg (not_not.2 hop)]
  cases hrel : n.relation with
  | none => simp [hop]
  | some schema =>
    dsimp only
    by_cases hne : n.subgraphs = []
    · simp [hne, hop]
    have htyped : (g.branchError n schema.result 0 none n.subgraphs = none ∧
        g.resultError n schema.result = none) ↔ g.RelationTyped n schema.result := by
      cases schema.result with
      | fold => exact fold_typed hne
      | select => exact select_typed hne
      | invoke => exact invoke_typed hne
    rw [if_neg (by simp [hne])]
    cases hs : schema.schemaError with
    | some e => simp [hop, hs]
    | none => simp [hop, hne, hs, ← htyped]

/-! ### Subgraphs -/

structure NodeOk (g : Graph) (n : GraphNode) : Prop where
  metadata : n.metadataError = none
  contract : n.contractError = none
  chain : n.chainError = none
  relation : g.RelationOk n
  references : ∀ id ∈ n.subgraphs, id < g.subgraphs.length

def EdgeTyped (sg : Subgraph) (a b : Nat) : Prop :=
  ∃ x y, sg.nodes[a]? = some x ∧ sg.nodes[b]? = some y ∧ x.outputType.equal y.inputType = true

structure SubgraphOk (g : Graph) (sg : Subgraph) : Prop where
  path : ∃ path, SinglePath sg path ∧ ∀ a b, (a, b) ∈ path.zip path.tail → EdgeTyped sg a b
  entry : ∃ x, sg.nodes[sg.entry]? = some x ∧ x.op = .input ∧ sg.inputType.equal x.inputType = true
  exit : ∃ x, sg.nodes[sg.tail]? = some x ∧ sg.outputType.equal x.outputType = true
  nodes : ∀ n ∈ sg.nodes, g.NodeOk n
  size : sg.nodes.length ≤ invalidId

theorem referenceError_eq_none :
    g.referenceError n = none ↔ ∀ id ∈ n.subgraphs, id < g.subgraphs.length := by
  unfold referenceError
  split_ifs with h
  · simpa using h
  · simpa using h

theorem nodeError_eq_none {id : Nat} :
    g.nodeError index id n = none ↔ g.NodeOk n ∧ index.firstFanout ≠ some id := by
  have hfan : (if index.firstFanout = some id then
      some "naked DATA fan-out is forbidden; use an explicit RELATION node" else none) = none ↔
      index.firstFanout ≠ some id := by
    split_ifs with h <;> simp [h]
  unfold nodeError
  simp only [or_eq_none_iff, hfan, relationError_eq_none, referenceError_eq_none]
  constructor
  · rintro ⟨h1,h2,h3,h4,h5,h6⟩
    exact ⟨⟨h1,h2,h3,h5,h6⟩,h4⟩
  · rintro ⟨⟨h1,h2,h3,h5,h6⟩,h4⟩
    exact ⟨h1,h2,h3,h4,h5,h6⟩

theorem edgeError_eq_none : edgeError sg e = none ↔ EdgeTyped sg e.source e.target := by
  unfold edgeError EdgeTyped
  split
  · rename_i x y hx hy
    simp [hx, hy]
  · rename_i hnone
    refine ⟨fun hc => (by cases hc),?_⟩
    rintro ⟨x,y,hx,hy,-⟩
    exact absurd hy (hnone x y hx)

theorem EdgeTyped.lt {a b : Nat} (h : EdgeTyped sg a b) : a < sg.nodes.length ∧ b < sg.nodes.length := by
  obtain ⟨x,y,hx,hy,-⟩ := h
  exact ⟨(List.getElem?_eq_some_iff.1 hx).1,(List.getElem?_eq_some_iff.1 hy).1⟩

variable {alloc : Bool}

theorem build_eq_ok (hne : sg.nodes ≠ [])
    (hedges : ∀ e ∈ sg.edges, e.source < sg.nodes.length ∧ e.target < sg.nodes.length) :
    SuccessorIndex.build alloc sg = .ok index ↔ sg.nodes.length ≤ invalidId ∧ alloc = true ∧
      index = SuccessorIndex.ofEdges sg.nodes.length sg.edges := by
  have hall : (sg.edges.all fun e =>
      e.source < sg.nodes.length && e.target < sg.nodes.length) = true := by
    simpa using hedges
  have hlen : sg.nodes.length ≠ 0 := fun h => hne (List.length_eq_zero_iff.1 h)
  unfold SuccessorIndex.build
  split_ifs with hsize halloc
  · exact ⟨fun hc => (by cases hc),fun hc => absurd hc.1 (Nat.not_le.2 hsize)⟩
  · exact ⟨fun hc => (by cases hc),fun hc => absurd (halloc.2.symm.trans hc.2.1) Bool.false_ne_true⟩
  · have halloc : alloc = true := by simpa [hlen] using halloc
    rw [Except.ok.injEq]
    exact ⟨fun h => ⟨Nat.not_lt.1 hsize,halloc,h.symm⟩,fun h => h.2.2.symm⟩

theorem nodesError_eq_none (hfan : ∀ v, index.firstFanout = some v → v < sg.nodes.length) :
    g.nodesError sg index = none ↔ (∀ n ∈ sg.nodes, g.NodeOk n) ∧ index.firstFanout = none := by
  unfold nodesError
  rw [List.findSome?_eq_none_iff]
  constructor
  · intro h
    have hrow : ∀ i n, sg.nodes[i]? = some n → g.NodeOk n ∧ index.firstFanout ≠ some i :=
      fun i n hi => nodeError_eq_none.1 (h (n,i) (List.mk_mem_zipIdx_iff_getElem?.2 hi))
    refine ⟨fun n hn => ?_,?_⟩
    · obtain ⟨i,hi⟩ := List.mem_iff_getElem?.1 hn
      exact (hrow i n hi).1
    · by_contra hne
      obtain ⟨v,hv⟩ := Option.ne_none_iff_exists'.1 hne
      exact (hrow v _ (List.getElem?_eq_getElem (hfan v hv))).2 hv
  · rintro ⟨hnodes,hnone⟩ ⟨n,i⟩ hrow
    refine nodeError_eq_none.2 ⟨hnodes n ?_,by rw [hnone]; exact fun hc => (by cases hc)⟩
    exact List.mem_of_getElem? (List.mk_mem_zipIdx_iff_getElem?.1 hrow)

open SuccessorIndex in
theorem indexedError_eq_none (hne : sg.nodes ≠ [])
    (hedges : ∀ e ∈ sg.edges, e.source < sg.nodes.length ∧ e.target < sg.nodes.length) :
    g.indexedError alloc sg = none ↔ sg.nodes.length ≤ invalidId ∧ alloc = true ∧
      (∀ n ∈ sg.nodes, g.NodeOk n) ∧
      SinglePath.Checked sg (ofEdges sg.nodes.length sg.edges) := by
  have hfan : ∀ v, (ofEdges sg.nodes.length sg.edges).firstFanout = some v → v < sg.nodes.length := by
    intro v hv
    obtain ⟨e,he,rfl⟩ := List.mem_map.1 (ofEdges_firstFanout_mem hv)
    exact (hedges e he).1
  unfold indexedError
  cases hb : build alloc sg with
  | error status =>
    refine ⟨fun hc => ?_,fun hc => ?_⟩
    · cases status <;> cases hc
    · have := (build_eq_ok hne hedges).2 ⟨hc.1,hc.2.1,rfl⟩
      rw [hb] at this
      cases this
  | ok index =>
    obtain ⟨hsize,halloc,rfl⟩ := (build_eq_ok hne hedges).1 hb
    dsimp only
    split_ifs with hexit
    · refine ⟨fun hc => (by cases hc),fun hc => ?_⟩
      rw [hc.2.2.2.exit] at hexit
      cases hexit
    · rw [or_eq_none_iff, nodesError_eq_none hfan]
      have hexit : (ofEdges sg.nodes.length sg.edges).successors sg.tail = none := by
        simpa using hexit
      constructor
      · rintro ⟨⟨hnodes,hfan⟩,htopology⟩
        exact ⟨hsize,halloc,hnodes,hexit,hfan,htopology⟩
      · rintro ⟨-,-,hnodes,hchecked⟩
        exact ⟨⟨hnodes,hchecked.fanout⟩,hchecked.topology⟩

theorem subgraphError_eq_none :
    g.subgraphError alloc sg = none ↔ g.SubgraphOk sg ∧ alloc = true := by
  unfold subgraphError
  split
  swap
  · rename_i hnone
    refine ⟨fun hc => (by cases hc),?_⟩
    rintro ⟨⟨-,⟨x,hx,-⟩,⟨y,hy,-⟩,-⟩,-⟩
    exact absurd hy (hnone x y hx)
  rename_i entry tail hentry htail
  have hne : sg.nodes ≠ [] := by
    intro h
    rw [h] at hentry
    cases hentry
  constructor
  · intro h
    split_ifs at h with hop hboundary
    rw [or_eq_none_iff, List.findSome?_eq_none_iff] at h
    obtain ⟨hedges,hindexed⟩ := h
    have hedges : ∀ e ∈ sg.edges, EdgeTyped sg e.source e.target :=
      fun e he => edgeError_eq_none.1 (hedges e he)
    obtain ⟨hsize,halloc,hnodes,hchecked⟩ :=
      (indexedError_eq_none hne fun e he => (hedges e he).lt).1 hindexed
    obtain ⟨path,hpath⟩ := SinglePath.of_checked (fun e he => (hedges e he).lt)
      (List.getElem?_eq_some_iff.1 hentry).1 (List.getElem?_eq_some_iff.1 htail).1 hchecked
    rw [Bool.not_eq_false, Bool.and_eq_true] at hboundary
    refine ⟨⟨⟨path,hpath,fun a b hab => ?_⟩,⟨entry,hentry,not_not.1 hop,hboundary.1⟩,
      ⟨tail,htail,hboundary.2⟩,hnodes,hsize⟩,halloc⟩
    obtain ⟨e,he,heq⟩ := List.mem_map.1 (hpath.edges.mem_iff.2 hab)
    obtain ⟨rfl,rfl⟩ := Prod.mk.inj heq
    exact hedges e he
  · rintro ⟨⟨⟨path,hpath,htyped⟩,⟨x,hx,hop,hin⟩,⟨y,hy,hout⟩,hnodes,hsize⟩,halloc⟩
    obtain rfl := some.inj (hx.symm.trans hentry)
    obtain rfl := some.inj (hy.symm.trans htail)
    have hedges : ∀ e ∈ sg.edges, EdgeTyped sg e.source e.target := fun e he =>
      htyped _ _ (hpath.edges.mem_iff.1 (List.mem_map.2 ⟨e,he,rfl⟩))
    rw [if_neg (not_not.2 hop), if_neg (by simp [hin, hout]), or_eq_none_iff,
      List.findSome?_eq_none_iff]
    refine ⟨fun e he => edgeError_eq_none.2 (hedges e he),?_⟩
    exact (indexedError_eq_none hne fun e he => (hedges e he).lt).2
      ⟨hsize,halloc,hnodes,hpath.checked⟩

end Graph

/-- What `cflow_graph_validate` accepts, when its allocations succeed as `alloc` says. -/
structure GraphOk (g : Graph) (alloc : Nat → Bool) : Prop where
  root : g.root < g.subgraphs.length
  subgraphs : ∀ sg ∈ g.subgraphs, g.SubgraphOk sg
  allocated : ∀ i, i < g.subgraphs.length → alloc i = true

/-- A graph is accepted exactly when every subgraph is one typed path through all its nodes, the
branches of its relations exist with matching types and each node passes its own checks. -/
theorem validate_eq_none_iff (g : Graph) (alloc : Nat → Bool) :
    g.validate alloc = none ↔ GraphOk g alloc := by
  unfold Graph.validate
  by_cases hroot : g.subgraphs.length ≤ g.root
  · rw [if_pos hroot]
    exact ⟨fun hc => (by cases hc),fun hc => absurd hc.root (Nat.not_lt.2 hroot)⟩
  rw [if_neg hroot, List.findSome?_eq_none_iff]
  constructor
  · intro h
    have hrow : ∀ i sg, g.subgraphs[i]? = some sg → g.SubgraphOk sg ∧ alloc i = true :=
      fun i sg hi => Graph.subgraphError_eq_none.1 (h (sg,i) (List.mk_mem_zipIdx_iff_getElem?.2 hi))
    refine ⟨Nat.not_le.1 hroot,fun sg hsg => ?_,fun i hi => ?_⟩
    · obtain ⟨i,hi⟩ := List.mem_iff_getElem?.1 hsg
      exact (hrow i sg hi).1
    · exact (hrow i _ (List.getElem?_eq_getElem hi)).2
  · rintro ⟨-,hok,halloc⟩ ⟨sg,i⟩ hrow
    have hi := List.mk_mem_zipIdx_iff_getElem?.1 hrow
    exact Graph.subgraphError_eq_none.2 ⟨hok sg (List.mem_of_getElem? hi),
      halloc i (List.getElem?_eq_some_iff.1 hi).1⟩

def orderedType : TypeDesc := { identity := 7, traits := [.compare, .copy, .move, .destroy] }

def emptySorted : Subgraph :=
  { nodes :=
      [.ofInput orderedType,
        { op := .sorted, inputType := orderedType, outputType := orderedType, params := .sorted 0 }]
    edges := [{ source := 0, target := 1 }]
    entry := 0
    tail := 1
    inputType := orderedType
    outputType := orderedType }

def boolBranch : Subgraph :=
  { nodes := [.ofInput typeBool], entry := 0, tail := 0, inputType := typeBool,
    outputType := typeBool }

def crossedZip : Subgraph :=
  { nodes :=
      [.ofInput orderedType,
        { op := .zip, inputType := orderedType, outputType := typeBool, subgraphs := [1] }]
    edges := [{ source := 0, target := 1 }]
    entry := 0
    tail := 1
    inputType := orderedType
    outputType := typeBool }

/-- A path through every node with matching types is refused for the parameter of one node, and a
ZIP is accepted though its branch takes another type. -/
theorem single_path_refused :
    (SinglePath emptySorted [0, 1] ∧ Graph.EdgeTyped emptySorted 0 1 ∧
      ({ subgraphs := [emptySorted], root := 0 } : Graph).validate (fun _ => true) =
        some "sorted node metadata is inconsistent") ∧
    boolBranch.inputType.equal crossedZip.inputType = false ∧
    ({ subgraphs := [crossedZip, boolBranch], root := 0 } : Graph).validate (fun _ => true) = none := by
  have hpath : SinglePath emptySorted [0, 1] := ⟨rfl,rfl,by decide,by decide⟩
  exact ⟨⟨hpath,⟨_,_,rfl,rfl,by decide⟩,by decide⟩,by decide,by decide⟩

end Salts.CFlow
