import Salts.CstlBPlusInsert

/-! Removal from a B+-tree. -/

namespace Salts.Cstl.BPlus

open Std PNode
open SortedMap (Ordered Before After)
open SortedMap
open List (append_cons append_nil count_eq_zero length_append length_cons mem_append range')
open Option (bind_eq_bind bind_some)

variable {K V : Type} {cmp : K → K → Ordering} {t h : Nat}

structure Balanced (t h id : Nat) (cs ds : List (PNode K V)) : Prop extends Moves [] cs ds where
  children : ∀ x ∈ ds, Child t h id x
  low : cs.length ≤ ds.length + 1
  high : ds.length ≤ cs.length

theorem balanced_of {id : Nat} {P W W' Q : List (PNode K V)} (hm : Moves [] W W')
    (hrest : ∀ x ∈ P ++ Q, Child t h id x) (hW : ∀ x ∈ W', Child t h id x)
    (hlow : W.length ≤ W'.length + 1) (hhigh : W'.length ≤ W.length) :
    Balanced t h id (P ++ (W ++ Q)) (P ++ (W' ++ Q)) := by
  refine ⟨⟨hm.toKeeps.context P Q,?_⟩,fun x hx => ?_,?_,?_⟩
  · simp [hm.flat]
  · simp only [mem_append] at hx hrest
    rcases hx with hx | hx | hx
    · exact hrest x (.inl hx)
    · exact hW x hx
    · exact hrest x (.inr hx)
  · simp only [length_append]
    omega
  · simp only [length_append]
    omega

theorem rebalance_spec (ht : 2 ≤ t) {g : Fields K V} {P Q : List (PNode K V)} {c : PNode K V}
    (hrest : ∀ x ∈ P ++ Q, Child t h g.id x) (hc : WF t h c) (hp : c.fields.parent = some g.id)
    (hlow : t ≤ c.numKeys + 2) (hhigh : c.numKeys < t - 1) (hpos : 2 ≤ (P ++ c :: Q).length) :
    ∃ ds, rebalance t (.mk g (P ++ c :: Q)) P.length = some (PNode.mk g ds).refresh ∧
      Balanced t h g.id (P ++ c :: Q) ds := by
  rcases List.eq_nil_or_concat P with rfl | ⟨P,l,rfl⟩
  · -- the first child only has a neighbour on its right
    cases Q with
    | nil => simp at hpos
    | cons r Q =>
      have hr : Child t h g.id r := hrest r (by simp)
      have hlowr := hr.low
      have hothers : ∀ x ∈ [] ++ Q, Child t h g.id x := fun x hx => hrest x (by simp_all)
      by_cases hmore : r.numKeys > t-1
      · have hlent := borrowRight_spec ht hc hr hp (by omega) hlow hhigh
        refine ⟨_,?_,balanced_of hlent.moves hothers (by simp [hlent.left, hlent.right]) (by simp)
          (by simp)⟩
        simp [rebalance, spare, hmore]
      · have hmerge := merge_spec ht hc hr.wf hp (by omega) (by omega)
        refine ⟨_,?_,balanced_of hmerge.2 hothers (by simp [hmerge.1]) (by simp) (by simp)⟩
        simp [rebalance, spare, hmore]
  · rw [List.concat_eq_append] at hrest hpos ⊢
    have hl : Child t h g.id l := hrest l (by simp)
    have hlowl := hl.low
    have hothers : ∀ x ∈ P ++ Q, Child t h g.id x := fun x hx => hrest x (by simp_all; tauto)
    have hchild : (P ++ l :: c :: Q)[P.length+1]? = some c := getElem?_mid_succ rfl _ _ _
    have hleft : (P ++ l :: c :: Q)[P.length]? = some l := getElem?_mid rfl _ _
    rw [← append_cons, length_append, List.length_singleton]
    by_cases hmore : l.numKeys > t-1
    · have hlent := borrowLeft_spec ht hl hc hp (by omega) hlow hhigh
      refine ⟨_,?_,balanced_of hlent.moves hothers
        (by simp [hlent.left, hlent.right]) (by simp) (by simp)⟩
      simp only [rebalance, children_mk, hchild, hleft, Nat.zero_lt_succ, if_true,
        Nat.add_sub_cancel, spare, hmore, set_mid_succ (rfl),
        set_mid (rfl)]
      rfl
    · cases Q with
      | nil =>
        have hmerge := merge_spec ht hl.wf hc hl.parent (by omega) (by omega)
        refine ⟨_,?_,balanced_of hmerge.2 hothers (by simp [hmerge.1]) (by simp) (by simp)⟩
        have hright : (P ++ [l, c])[P.length+1+1]? = none := by simp
        simp only [rebalance, children_mk, hchild, hleft, hright, Nat.zero_lt_succ, if_true,
          Nat.add_sub_cancel, spare, hmore, set_mid (rfl),
          eraseIdx_mid_succ (rfl)]
        rfl
      | cons r Q =>
        have hr : Child t h g.id r := hrest r (by simp)
        have hright : (P ++ l :: c :: r :: Q)[P.length+1+1]? = some r := by
          rw [append_cons]
          exact getElem?_mid_succ (by simp) _ _ _
        by_cases hmore' : r.numKeys > t-1
        · have hlent := borrowRight_spec ht hc hr hp (by omega) hlow hhigh
          refine ⟨P ++ l :: ((borrowRight c r).1 :: (borrowRight c r).2 :: Q),?_,?_⟩
          · have hset : ((P ++ l :: c :: r :: Q).set (P.length+1) (borrowRight c r).1).set
                (P.length+1+1) (borrowRight c r).2 =
                P ++ l :: (borrowRight c r).1 :: (borrowRight c r).2 :: Q := by
              rw [set_mid_succ rfl, append_cons, set_mid_succ (by simp), ← append_cons]
            simp only [rebalance, children_mk, hchild, hleft, hright, bind_eq_bind,
              bind_some, Nat.zero_lt_succ, if_true, Nat.add_sub_cancel, spare, hmore,
              if_false, hmore', hset]
            rfl
          · have hpair : ∀ x ∈ (P ++ [l]) ++ Q, Child t h g.id x := fun x hx =>
              hrest x (by simp_all; tauto)
            have := balanced_of hlent.moves hpair
              (by simp [hlent.left, hlent.right]) (by simp) (by simp)
            simpa using this
        · have hmerge := merge_spec ht hl.wf hc hl.parent (by omega) (by omega)
          refine ⟨_,?_,balanced_of hmerge.2 hothers (by simp [hmerge.1]) (by simp) (by simp)⟩
          simp only [rebalance, children_mk, hchild, hleft, hright, Nat.zero_lt_succ, if_true,
            Nat.add_sub_cancel, spare, hmore, hmore', set_mid (rfl),
            eraseIdx_mid_succ (rfl)]
          rfl

structure Deleted (cmp : K → K → Ordering) (t h : Nat) (key : K) (n n' : PNode K V)
    (e : Entry K V) : Prop extends Kept t h [] n n' where
  low : n.numKeys ≤ n'.numKeys + 1
  high : n'.numKeys ≤ n.numKeys
  key : cmp e.key key = .eq
  lists : ∃ A B, flat n = A ++ e :: B ∧ flat n' = A ++ B

theorem Deleted.below (ht : 2 ≤ t) {key : K} {f : Fields K V} {P Q ds : List (PNode K V)}
    {c c' : PNode K V} {e : Entry K V} (hdel : Deleted cmp t h key c c' e)
    (hr : Ready t (h + 1) f (P ++ c :: Q)) (hpos : 2 ≤ (P ++ c :: Q).length)
    (hb : Balanced t h f.id (P ++ c' :: Q) ds) :
    Deleted cmp t (h + 1) key (.mk f (P ++ c :: Q)) (PNode.mk f ds).refresh e := by
  obtain ⟨A,B,hA,hA'⟩ := hdel.lists
  have hkeeps := hdel.toKept.toKeeps.context P Q
  have hlow := hb.low
  have hhigh := hb.high
  simp only [length_append, length_cons] at hlow hhigh hpos
  obtain ⟨hready,hkept⟩ := kept_inner ht hr rfl rfl rfl rfl
    (List.ne_nil_of_length_pos (by omega)) hb.children (hkeeps.trans hb.toMoves.toKeeps)
  refine ⟨hkept,?_,?_,hdel.key,flatOf P ++ A,B ++ flatOf Q,?_,?_⟩
  · rw [numKeys_refresh, hr.numKeys_inner, hready.numKeys_inner, length_append,
      length_cons]
    omega
  · rw [numKeys_refresh, hr.numKeys_inner, hready.numKeys_inner, length_append,
      length_cons]
    omega
  · rw [hr.flat_eq, flatOf_append, flatOf_cons, hA]
    simp
  · rw [flat, leaves_refresh, ← flat, hready.flat_eq, hb.flat, flatOf_append, flatOf_cons, hA']
    simp

theorem removeFrom_spec [TransCmp cmp] (ht : 2 ≤ t) {key : K} {fuel : Nat} (hfuel : h < fuel)
    {n : PNode K V} (hwf : WF t h n) (hpos : 1 ≤ n.numKeys)
    (hord : Ordered Entry.key cmp (flat n)) (hkey : ∃ e ∈ flat n, cmp e.key key = .eq) :
    ∃ n' e, removeFrom cmp t fuel n key = some (n', e) ∧ Deleted cmp t h key n n' e := by
  induction fuel generalizing n h with
  | zero => omega
  | succ fuel ih =>
    obtain ⟨f,cs⟩ := n
    have hr := hwf.ready
    obtain ⟨e,hmem,heq⟩ := hkey
    cases h with
    | zero =>
      obtain rfl := hr.leaf rfl
      have hleaf := hr.isLeaf
      rw [hr.flat_leaf] at hord hmem
      obtain ⟨A,B,hes,hA,hB | ⟨x,B,rfl,hx,hB⟩⟩ := hord.cut key
      · rw [hes, mem_append] at hmem
        exact absurd heq (hmem.elim (hA.ne e) (hB.ne e))
      · obtain ⟨hready,hkeeps⟩ := hr.entries (A ++ B)
        have hbound := lowerBound_append hA (List.forall_mem_cons.2 ⟨by rw [hx]; nofun,hB.not_lt⟩)
        refine ⟨(PNode.mk { f with entries := A ++ B } []).refresh,x,?_,
          ⟨hkeeps.refresh,hready.refresh ht,by simp,by simp⟩,?_,?_,hx,A,B,?_,?_⟩
        · simp only [removeFrom, hleaf, hes, hbound, getElem?_mid rfl, eraseIdx_mid rfl]
          rfl
        · rw [numKeys_refresh, hready.numKeys_leaf, hr.numKeys_leaf, hes]
          simp only [length_append, length_cons]
          omega
        · rw [numKeys_refresh, hready.numKeys_leaf, hr.numKeys_leaf, hes]
          simp
        · rw [hr.flat_leaf, hes]
        · rw [flat, leaves_refresh, ← flat, hready.flat_leaf]
    | succ h =>
      obtain ⟨P,c,Q,rfl,hindex,hP,hQ,hc,hordc,hflat⟩ := hwf.descend ht hord key
      have hinner := hr.isLeaf
      have hlow := hc.low
      have hinside : e ∈ flat c := by
        rw [hflat, mem_append, mem_append] at hmem
        rcases hmem with hmem | hmem | hmem
        · exact absurd heq (hP.ne e hmem)
        · exact hmem
        · exact absurd heq (hQ.ne e hmem)
      obtain ⟨c',x,hremove,hdel⟩ := ih (by omega) hc.wf (by omega) hordc ⟨e,hinside,heq⟩
      have hparent : c'.fields.parent = some f.id := by rw [hdel.parent, hc.parent]
      have hrest : ∀ y ∈ P ++ Q, Child t h f.id y := fun y hy =>
        hr.children y (by simp only [mem_append] at hy ⊢; tauto)
      have hlo := hdel.low
      have hhi := hdel.high
      have hlen : 2 ≤ (P ++ c :: Q).length := by
        rw [hr.numKeys_inner] at hpos
        omega
      by_cases hshort : c'.numKeys < t-1
      · obtain ⟨ds,hbal,hb⟩ := rebalance_spec ht hrest hdel.wf hparent (by omega) hshort
          (by simpa using hlen)
        refine ⟨_,x,?_,hdel.below ht hr hlen hb⟩
        simp only [removeFrom, hinner, hindex, bind_eq_bind, bind_some,
          getElem?_mid (rfl), hremove, putBack, fields_mk, hparent,
          if_true, children_mk, set_mid (rfl), hshort, hbal]
        rfl
      · have hc' := hdel.toKept.child hc (by omega) (by have := hc.high; omega)
        have hb : Balanced t h f.id (P ++ c' :: Q) (P ++ c' :: Q) := by
          refine ⟨⟨⟨Evolves.rfl,fun i => Nat.le_add_right _ _⟩,rfl⟩,fun y hy => ?_,
            Nat.le_succ _,le_rfl⟩
          simp only [mem_append, List.mem_cons] at hy
          rcases hy with hy | rfl | hy
          · exact hrest y (List.mem_append_left _ hy)
          · exact hc'
          · exact hrest y (List.mem_append_right _ hy)
        refine ⟨_,x,?_,hdel.below ht hr hlen hb⟩
        simp only [removeFrom, hinner, hindex, bind_eq_bind, bind_some,
          getElem?_mid (rfl), hremove, putBack, fields_mk, hparent,
          children_mk, set_mid (rfl), hshort]
        rfl

/-! ### Every run keeps the laws of a tree -/

variable {K V : Type} {cmp : K → K → Ordering} {t h b : Nat}

/-- A root whose nodes have names below `b`: it is well formed with a number of keys from one to
`2 t - 1`, it has no parent, the chain of its leaves runs from left to right, and no two nodes have
the same name. -/
structure Rooted (t b : Nat) (n : PNode K V) : Prop where
  wf : ∃ h, WF t h n
  low : 1 ≤ n.numKeys
  high : n.numKeys ≤ 2 * t - 1
  parent : n.fields.parent = none
  linked : Linked (leaves n) none
  nodup : (ids n).Nodup
  below : ∀ i ∈ ids n, i < b

theorem Rooted.mono {b' : Nat} {n : PNode K V} (hr : Rooted t b n) (hle : b ≤ b') : Rooted t b' n :=
  { hr with below := fun i hi => Nat.lt_of_lt_of_le (hr.below i hi) hle }

theorem Rooted.keep {n n' : PNode K V} (hr : Rooted t b n) (used : Nat)
    (hk : Keeps (range' b used) [n] [n']) (hwf : WF t h n') (hlow : 1 ≤ n'.numKeys)
    (hhigh : n'.numKeys ≤ 2 * t - 1) (hparent : n'.fields.parent = none) :
    Rooted t (b + used) n' := by
  have hcount : ∀ i, (ids n').count i ≤ (ids n).count i+(range' b used).count i := by
    simpa using hk.ids
  have hold := List.nodup_iff_count_le_one.1 hr.nodup
  have hnew := List.nodup_iff_count_le_one.1 (List.nodup_range' (s := b) (n := used))
  refine ⟨⟨h,hwf⟩,hlow,hhigh,hparent,?_,List.nodup_iff_count_le_one.2 fun i => ?_,fun i hi => ?_⟩
  · have := hk.chain.2 none
    simp only [leavesOf_cons, leavesOf_nil, append_nil] at this
    exact this hr.linked
  · have hi := hcount i
    by_cases hmem : i ∈ ids n
    · have hzero : (range' b used).count i = 0 := by
        rw [count_eq_zero, List.mem_range'_1]
        have := hr.below i hmem
        omega
      have := hold i
      omega
    · rw [count_eq_zero.2 hmem] at hi
      have := hnew i
      omega
  · have hpos := List.count_pos_iff.2 hi
    have hi := hcount i
    by_cases hmem : i ∈ ids n
    · have := hr.below i hmem
      omega
    · rw [count_eq_zero.2 hmem] at hi
      have := (List.mem_range'_1.1 (List.count_pos_iff.1 (by omega : 0 < (range' b used).count i)))
      omega

theorem leaves_ne_nil (ht : 2 ≤ t) {n : PNode K V} (hwf : WF t h n) (hpos : 1 ≤ n.numKeys) :
    ∀ l ∈ leaves n, l.entries ≠ [] := by
  induction h generalizing n with
  | zero =>
    obtain ⟨f,cs⟩ := n
    have hr := hwf.ready
    rw [hr.numKeys_leaf] at hpos
    rw [hr.leaves_leaf, List.forall_mem_singleton]
    exact List.length_pos_iff.1 hpos
  | succ h ih =>
    obtain ⟨f,cs⟩ := n
    have hr := hwf.ready
    rw [hr.leaves_eq]
    have hcs := hr.children
    clear hr hwf hpos
    induction cs with
    | nil => simp
    | cons c cs ihs =>
      obtain ⟨hc,hcs⟩ := List.forall_mem_cons.1 hcs
      rw [leavesOf_cons, List.forall_mem_append]
      exact ⟨ih hc.wf (by have := hc.low; omega),ihs hcs⟩

theorem leafIds_sublist {n : PNode K V} (hwf : WF t h n) :
    ((leaves n).map Leaf.id).Sublist (ids n) := by
  induction h generalizing n with
  | zero =>
    obtain ⟨f,cs⟩ := n
    rw [hwf.ready.leaves_leaf]
    exact (List.nil_sublist _).cons_cons _
  | succ h ih =>
    obtain ⟨f,cs⟩ := n
    have hr := hwf.ready
    have hcs := hr.children
    rw [hr.leaves_eq]
    apply List.Sublist.cons
    clear hr hwf
    induction cs with
    | nil => simp
    | cons c cs ihs =>
      obtain ⟨hc,hcs⟩ := List.forall_mem_cons.1 hcs
      rw [leavesOf_cons, List.map_append]
      exact (ih hc.wf).append (ihs hcs)

theorem Rooted.leafNamed {n : PNode K V} (hr : Rooted t b n) {L M : List (Leaf K V)} {m : Leaf K V}
    (heq : leaves n = L ++ m :: M) : BPlus.leafNamed n m.id = some m := by
  obtain ⟨h,hwf⟩ := hr.wf
  have hnodup := (leafIds_sublist hwf).nodup hr.nodup
  rw [heq, List.map_append, List.map_cons, List.nodup_middle, List.nodup_cons] at hnodup
  rw [BPlus.leafNamed, heq, List.find?_append, List.find?_eq_none.2]
  · simp
  · intro x hx hid
    exact hnodup.1 (List.mem_append_left _ (beq_iff_eq.1 hid ▸ List.mem_map_of_mem hx))

theorem Rooted.nextLink (ht : 2 ≤ t) {n : PNode K V} (hr : Rooted t b n) {B : List (Entry K V)}
    {hint : Hint} (hh : Hinted n B hint) :
    BPlus.nextLink n hint = some (B.head?.map Entry.link) := by
  obtain ⟨h,hwf⟩ := hr.wf
  cases hint with
  | link l => exact congrArg some hh.symm
  | leaf next =>
    obtain ⟨L,l,M,heq,rfl,rfl⟩ := hh
    have hlinked := hr.linked
    rw [heq, linked_append] at hlinked
    cases M with
    | nil =>
      rw [hlinked.2.1]
      rfl
    | cons m M =>
      have hne := leaves_ne_nil ht hwf hr.low m (by rw [heq]; simp)
      have hnext : l.next = some m.id := hlinked.2.1
      rw [hnext, BPlus.nextLink, hr.leafNamed (heq.trans (append_cons L l (m :: M))),
        List.flatMap_cons, List.head?_append_of_ne_nil _ hne]
      rfl

theorem splitRoot_spec (ht : 2 ≤ t) {n : PNode K V} (hwf : WF t h n)
    (hfull : n.numKeys = 2 * t - 1) :
    ∃ root, splitChild t (.mk ⟨b, none, false, none, none, [], []⟩ [n.setParent (some b)]) 0
        (b + 1) = some root ∧ WF t (h + 1) root ∧ root.fields.parent = none ∧ root.numKeys = 1 ∧
      flat root = flat n ∧ Keeps [b, b + 1] [n] [root] := by
  have hready : Ready t (h+1) ⟨b,none,false,none,none,[],[]⟩
      [n.setParent (some b)] := by
    refine ⟨rfl,nofun,fun _ => ⟨rfl,by simp⟩,List.forall_mem_singleton.2
      ⟨wf_setParent hwf _,?_,?_,?_⟩⟩
    · obtain ⟨f,cs⟩ := n
      rfl
    · rw [numKeys_setParent]
      omega
    · rw [numKeys_setParent]
      omega
  obtain ⟨g,l,r,e,es,hsplit,hg,-,-,hall,-,-,hk,hcut,hwf'⟩ :=
    splitChild_spec (P := []) ht hready (by rw [numKeys_setParent]; exact hfull) (b+1)
  have hr' := hwf'.ready
  refine ⟨_,hsplit,hwf',hg.2.1,hr'.numKeys_inner,?_,?_,fun i => ?_⟩
  · rw [hr'.flat_eq]
    simp only [List.nil_append, flatOf_cons, flatOf_nil, append_nil, ← hcut]
    rw [flat, leaves_setParent, ← flat]
  · have := hk.chain
    rw [leavesOf_cons, leavesOf_cons, hr'.leaves_eq]
    simpa using this
  · have := hk.ids i
    have hid := hg.1
    simp only [List.nil_append, idsOf_cons, idsOf_nil, ids_setParent, ids, append_nil,
      List.count_cons, hid] at this ⊢
    omega

theorem bplus_laws [TransCmp cmp] (ht : 2 ≤ t) :
    Tree.Laws cmp (bplusTree (V := V) cmp t) flat (Rooted t) where
  shape_mono hle h := h.mono hle
  branches := by
    intro b n hr
    obtain ⟨h,hwf⟩ := hr.wf
    have := two_pow_le_flat ht hwf hr.low
    rw [show (bplusTree cmp t).levels n = h + 1 from levels_eq hwf, Nat.pow_succ]
    omega
  modify := by
    intro b n f key hf hr hord
    obtain ⟨h,hwf⟩ := hr.wf
    have hfuel : h < n.levels := by
      rw [levels_eq hwf]
      omega
    rcases modify_spec ht f hf key hfuel hwf hord with habsent | ⟨A,e,B,n',hfound⟩
    · exact .inl habsent
    · obtain ⟨hmodify,he,hk,hnum,-,hA,hA'⟩ := hfound
      exact .inr ⟨A,e,B,n',hmodify,he,hr.keep 0 hk.toKeeps hk.wf (hnum ▸ hr.low)
        (hnum ▸ hr.high) (hk.parent.trans hr.parent),hA,hA'⟩
  insert_empty b entry := by
    have hready : Ready t 0 ⟨b,none,true,none,none,[],[entry]⟩ [] :=
      ⟨rfl,fun _ => rfl,fun h => absurd rfl h,by simp⟩
    refine ⟨(PNode.mk ⟨b,none,true,none,none,[],[entry]⟩ []).refresh,
      ⟨⟨0,hready.refresh ht⟩,?_,?_,by simp,?_,?_,?_⟩,?_,?_⟩
    · exact Nat.le_refl 1
    · show 1 ≤ 2 * t-1
      omega
    · exact ⟨rfl,trivial⟩
    · simp [ids]
    · simp [ids]
    · rw [flat, leaves_refresh, ← flat, hready.flat_leaf]
    · intro count hcount
      obtain ⟨count,rfl⟩ : ∃ k, count = k + 1 := ⟨count - 1,by omega⟩
      rfl
  insert := by
    intro b n entry hr hord habsent
    obtain ⟨h,hwf⟩ := hr.wf
    have hlevels : (bplusTree cmp t).levels n = h+1 := levels_eq hwf
    by_cases hfull : n.numKeys = 2 * t-1
    · obtain ⟨root,hsplit,hwf',hparent,hnum,hflat,hk⟩ := splitRoot_spec ht hwf hfull
      rw [← hflat] at hord habsent
      obtain ⟨used,hused,A,B,hint,n',hins,hrun⟩ := insertInto_spec ht entry
        (Nat.lt_succ_self (h+1)) (b+2) hwf' (by omega) hord habsent
      have hlow := hins.low
      have hhigh := hins.high
      have hrooted := hr.keep (used+2) (hk.trans hins.toKept.toKeeps) hins.wf (by omega)
        (by omega) (hins.parent.trans hparent)
      refine ⟨used+2,by omega,A,B,n',hrooted,hflat ▸ hins.before,hins.after,?_,?_⟩
      · rw [hins.after]
        exact (hins.before ▸ hord).insert_mid hins.left hins.right
      · intro count hcount
        obtain ⟨count,rfl⟩ : ∃ k, count = k + 2 := ⟨count - 2,by omega⟩
        have hstep := hrun count (by omega)
        have hlink := hrooted.nextLink ht hins.hinted
        simp only [bplusTree, insertPrepared, hfull, if_true, List.range'_succ, poolTake,
          bind_eq_bind, bind_some, hsplit, levels_eq hwf', hstep, hlink,
          Nat.add_assoc, Option.pure_def, Nat.add_sub_add_right]
        rw [Nat.add_comm 2 used]
    · obtain ⟨used,hused,A,B,hint,n',hins,hrun⟩ := insertInto_spec ht entry
        (Nat.lt_succ_self h) b hwf (by have := hr.high; omega) hord habsent
      have hlow := hins.low
      have hhigh := hins.high
      have hpos := hr.low
      have hmax := hr.high
      have hrooted := hr.keep used hins.toKept.toKeeps hins.wf (by omega) (by omega)
        (hins.parent.trans hr.parent)
      refine ⟨used,by omega,A,B,n',hrooted,hins.before,hins.after,?_,?_⟩
      · rw [hins.after]
        exact (hins.before ▸ hord).insert_mid hins.left hins.right
      · intro count hcount
        have hlink := hrooted.nextLink ht hins.hinted
        simp only [bplusTree, insertPrepared, hfull, bind_eq_bind, bind_some,
          levels_eq hwf, hrun count hcount, hlink]
        rfl
  delete := by
    intro b n key hr hord hkey
    obtain ⟨h,hwf⟩ := hr.wf
    obtain ⟨n',e,hremove,hdel⟩ := removeFrom_spec ht (show h < n.levels by
      rw [levels_eq hwf]
      omega) hwf hr.low hord hkey
    obtain ⟨A,B,hA,hA'⟩ := hdel.lists
    have hmax := hr.high
    have hhigh := hdel.high
    by_cases hempty : n'.numKeys = 0
    · obtain ⟨f,cs⟩ := n'
      have hready := hdel.wf.ready
      cases h with
      | zero =>
        have hleaf := hready.isLeaf
        refine ⟨A,e,B,none,?_,hdel.key,hA,?_,by simp⟩
        · simp only [bplusTree, remove, hremove, bind_eq_bind, bind_some, hempty,
            fields_mk, hleaf]
          rfl
        · rw [hready.numKeys_leaf, List.length_eq_zero_iff] at hempty
          rw [← hA', hready.flat_leaf, hempty]
          rfl
      | succ h =>
        have hinner := hready.isLeaf
        rw [hready.numKeys_inner] at hempty
        have hpos := List.length_pos_iff.2 (hready.inner (by simp)).2
        obtain ⟨c,rfl⟩ := List.length_eq_one_iff.1 (show cs.length = 1 by omega)
        have hc : Child t h f.id c := hready.children c List.mem_cons_self
        have hlow := hc.low
        have hwf' := wf_setParent hc.wf none
        have hrefresh : WF t h (c.setParent none).refresh := by
          obtain ⟨g,ds⟩ := c
          exact hwf'.ready.refresh ht
        have hkeeps : Keeps [] [n] [(c.setParent none).refresh] := by
          refine ⟨?_,fun i => ?_⟩
          · have := hdel.chain
            rw [leavesOf_cons, leavesOf_cons, hready.leaves_eq] at this
            simpa using this
          · have := hdel.ids i
            simp only [idsOf_cons, idsOf_nil, ids, ids_refresh, ids_setParent, List.append_nil,
              List.count_cons] at this ⊢
            omega
        refine ⟨A,e,B,some (c.setParent none).refresh,?_,hdel.key,hA,?_,?_⟩
        · simp only [bplusTree, remove, hremove, bind_eq_bind, bind_some,
            hready.numKeys_inner, fields_mk, hinner]
          rfl
        · rw [← hA', hready.flat_eq]
          simp [flat, flatOf]
        · rintro _ ⟨⟩
          exact hr.keep 0 hkeeps hrefresh (by simp; omega) (by simpa using hc.high) (by
            obtain ⟨g,ds⟩ := c
            simp [setParent])
    · refine ⟨A,e,B,some n',?_,hdel.key,hA,hA',?_⟩
      · simp only [bplusTree, remove, hremove, bind_eq_bind, bind_some, hempty,
          if_false]
        rfl
      · rintro _ ⟨⟩
        exact hr.keep 0 hdel.toKept.toKeeps hdel.wf (by omega) (by omega)
          (hdel.parent.trans hr.parent)

structure Represents (cmp : K → K → Ordering) (t : Nat) (tree : Tree K V (PNode K V)) : Prop where
  nodes : ∀ root ∈ tree.root, Rooted t tree.serial root
  ascending : (tree.pairs flat).Pairwise fun p q => cmp p.1 q.1 = .lt
  size : tree.size = (tree.pairs flat).length

/-- Any run of calls from an empty tree, under any failures, computes what a sorted map computes and
leaves a B+-tree whose leaves hold that map; a `put` fails only for a reason. -/
theorem bplus_refines [TransCmp cmp] (ht : 2 ≤ t) (entryLimit generation : Nat)
    (ops : List (Tree.Op K V)) :
    ∃ replies tree, Tree.run (bplusTree cmp t) (Tree.init K V _ entryLimit generation) ops =
        some (replies, tree) ∧
      Tree.MapRun cmp [] ops replies (tree.pairs flat) ∧ Represents cmp t tree ∧
      ∀ env key value s tree', Tree.put (bplusTree cmp t) env tree key value = some (s, tree') →
        s ≠ .ok → Tree.Refuses env tree := by
  have laws : Tree.Laws cmp (bplusTree (V := V) cmp t) flat (Rooted t) := bplus_laws ht
  obtain ⟨replies,tree,hrun,hinv,hmap⟩ :=
    (Tree.inv_init cmp flat (Rooted t) entryLimit generation).run laws ops
  refine ⟨replies,tree,hrun,hmap,⟨hinv.shape,List.pairwise_map.2 hinv.ordered,?_⟩,
    fun env key value s tree' hput hs => hinv.refuses laws hput hs⟩
  rw [hinv.size, Tree.pairs, List.length_map]

theorem bplus_refines_reshaping :
    ∃ tree, Tree.run (bplusTree compare 2) (Tree.init Nat Nat _ 8 0) Tree.reshaping =
        some (Tree.reshapingReplies, tree) ∧
      tree.pairs flat = [(2, 22), (4, 40)] ∧
      Tree.MapRun compare [] Tree.reshaping Tree.reshapingReplies (tree.pairs flat) ∧
      Represents compare 2 tree ∧
      ∀ env key value s tree', Tree.put (bplusTree compare 2) env tree key value =
        some (s, tree') → s ≠ .ok → Tree.Refuses env tree :=
  Tree.run_shows (by decide +kernel) (bplus_refines (by decide) 8 0 Tree.reshaping)

end Salts.Cstl.BPlus
