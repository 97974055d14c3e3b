import Salts.CstlBPlusDelete
import Salts.CstlBTreeInsert

/-!
The ranges over a tree and its positional lookup.  A range walks the links of the entries; it keeps
the generation of the tree at its start and refuses to go on once the tree has another one.
-/

namespace Salts.Cstl

namespace Tree

open Std
open SortedMap (Ordered)

variable {K V N : Type}

inductive GenStatus
  | value
  | valueAndDone
  | done
  | error
  | mutated
  deriving DecidableEq

/-- `cmeta_range_cursor`: whether `state[1]` is set, and the link in `state[0]`. -/
structure Cursor where
  started : Bool
  link : Option Nat

/-- `btree_range_next` and `bplus_tree_range_next`; a link without a record is not read. -/
def rangeNext (tree : Tree K V N) (cursor : Cursor) : Option (Option ((K × V) × Cursor)) :=
  match if cursor.started then cursor.link else tree.chain.next none with
  | none => some none
  | some link => do
    let pair ← tree.record link
    return some (pair, ⟨true, tree.chain.next (some link)⟩)

/-- `cmeta_range_next` over the entries of a tree: `version` is the generation the range was made
at, and `constructs` tells whether the entry can be copied out. -/
def next (version : Nat) (tree : Tree K V N) (constructs : Bool) (cursor : Cursor) :
    Option (GenStatus × Option (K × V) × Cursor) :=
  if tree.generation ≠ version then some (.mutated, none, cursor)
  else do
    match ← tree.rangeNext cursor with
    | none => return (.done, none, cursor)
    | some (pair, after) =>
      if constructs then
        return (if after.link = none then .valueAndDone else .value, some pair, after)
      else return (.error, none, cursor)

def collect (version : Nat) (tree : Tree K V N) : Nat → Cursor → Option (List (K × V))
  | 0, _ => none
  | fuel + 1, cursor => do
    match ← next version tree true cursor with
    | (.value, some pair, after) => return pair :: (← collect version tree fuel after)
    | (.valueAndDone, some pair, _) => return [pair]
    | (.done, _, _) => return []
    | _ => none

def mutates (kind : TreeKind K V N) (tree : Tree K V N) (op : Op K V) : Bool :=
  match step kind tree op with
  | some (.status s, _) => s = .ok
  | some (.removed s _, _) => s = .ok
  | some (.done, _) => tree.root.isSome
  | _ => false

def mutations (kind : TreeKind K V N) (tree : Tree K V N) : List (Op K V) → Nat
  | [] => 0
  | op :: ops =>
    (mutates kind tree op).toNat +
      match step kind tree op with
      | some (_, tree) => mutations kind tree ops
      | none => 0

section Calls

variable {cmp : K → K → Ordering} {kind : TreeKind K V N}
  {entries : N → List (Entry K V)} {Shape : Nat → N → Prop} {tree : Tree K V N}

theorem Inv.collect_from (h : Inv cmp entries Shape tree) (fuel k : Nat) (cursor : Cursor)
    (hk : (if cursor.started then cursor.link else tree.chain.next none) =
      ((tree.entriesOf entries).map Entry.link)[k]?)
    (hfuel : (tree.entriesOf entries).length < fuel + k) (hle : k ≤ (tree.entriesOf entries).length) :
    collect tree.generation tree fuel cursor = some (((tree.entriesOf entries).drop k).map pair) := by
  induction fuel generalizing k cursor with
  | zero => omega
  | succ fuel ih =>
    rw [collect, next, if_neg (by simp), rangeNext, hk]
    rcases Nat.lt_or_ge k (tree.entriesOf entries).length with hlt | hge
    · have hlink : ((tree.entriesOf entries).map Entry.link)[k]? =
          some (tree.entriesOf entries)[k].link := by
        rw [List.getElem?_map, List.getElem?_eq_getElem hlt, Option.map_some]
      have hafter := h.threads.next (k+1) (by rw [List.length_map]; exact hlt)
      simp only [EntryChain.cell, hlink] at hafter
      rw [hlink, List.drop_eq_getElem_cons hlt]
      simp only [h.record _ (List.getElem_mem hlt), Option.bind_eq_bind, Option.bind_some,
        Option.pure_def, hafter, if_true]
      by_cases hend : ((tree.entriesOf entries).map Entry.link)[k+1]? = none
      · have hnil : (tree.entriesOf entries).length ≤ k+1 := by simpa using hend
        rw [List.drop_eq_nil_of_le hnil]
        simp [hend]
      · have hmore : k+1 ≤ (tree.entriesOf entries).length := by omega
        simp only [hend, if_false]
        rw [ih (k+1) _ (by simp) (by omega) hmore]
        rfl
    · rw [List.getElem?_eq_none (by simpa using hge), List.drop_eq_nil_of_le hge]
      rfl

theorem Inv.collect (h : Inv cmp entries Shape tree) :
    Tree.collect tree.generation tree (tree.size + 1) ⟨false, none⟩ = some (tree.pairs entries) := by
  refine h.collect_from (tree.size+1) 0 ⟨false,none⟩ ?_ (by rw [h.size]; omega) (Nat.zero_le _)
  exact h.threads.next 0 (Nat.zero_le _)

theorem wrap_of_le {n : Nat} (h : n ≤ sizeMax) : wrap n = n :=
  Nat.mod_eq_of_lt (by simp only [sizeMax] at h; omega)

theorem wrap_le (n : Nat) : wrap n ≤ sizeMax :=
  Nat.le_sub_one_of_lt (Nat.mod_lt _ (by decide))

variable [TransCmp cmp]

section

variable (laws : Laws cmp kind entries Shape) (h : Inv cmp entries Shape tree)
  (hg : tree.generation ≤ sizeMax)

include laws h hg

theorem Inv.generation_step (op : Op K V) :
    ∃ reply tree', Tree.step kind tree op = some (reply, tree') ∧ Inv cmp entries Shape tree' ∧
      tree'.generation = wrap (tree.generation + (mutates kind tree op).toNat) := by
  cases op with
  | put env key value =>
    obtain ⟨s,tree',heq,hcase⟩ := h.put laws env key value
    have hstep : Tree.step kind tree (.put env key value) = some (.status s,tree') := by
      rw [Tree.step, heq]
      rfl
    refine ⟨_,_,hstep,?_⟩
    rw [mutates, hstep]
    rcases hcase with ⟨rfl,hinv,-,hgen⟩ | ⟨hs,rfl,-⟩
    · exact ⟨hinv,hgen⟩
    · exact ⟨h,by simp [hs, wrap_of_le hg]⟩
  | remove key =>
    obtain ⟨s,value,tree',heq,hinv,-,-,-,hok,hfail⟩ := h.remove laws key
    have hstep : Tree.step kind tree (.remove key) = some (.removed s value,tree') := by
      rw [Tree.step, heq]
      rfl
    refine ⟨_,_,hstep,hinv,?_⟩
    rw [mutates, hstep]
    by_cases hs : s = .ok
    · simp [hs, hok hs]
    · simp [hs, hfail hs, wrap_of_le hg]
  | clear =>
    refine ⟨_,_,rfl,h.clear.1,?_⟩
    rw [mutates, Tree.step, Tree.clear]
    cases hroot : tree.root with
    | none => simp [wrap_of_le hg]
    | some n => rfl
  | lookup key =>
    refine ⟨_,_,by rw [Tree.step, h.get laws key]; rfl,h,?_⟩
    rw [mutates, Tree.step]
    simp [wrap_of_le hg]

theorem Inv.generation (ops : List (Op K V)) :
    ∃ replies tree', Tree.run kind tree ops = some (replies, tree') ∧ Inv cmp entries Shape tree' ∧
      tree'.generation = wrap (tree.generation + mutations kind tree ops) := by
  induction ops generalizing tree with
  | nil => exact ⟨[],tree,rfl,h,(wrap_of_le hg).symm⟩
  | cons op ops ih =>
    obtain ⟨reply,tree₁,hstep,hinv,hgen⟩ := h.generation_step laws hg op
    obtain ⟨replies,tree₂,hrun,hinv₂,hgen₂⟩ := ih hinv (hgen ▸ wrap_le _)
    refine ⟨reply :: replies,tree₂,?_,hinv₂,?_⟩
    · simp only [Tree.run, hstep, hrun, Option.bind_eq_bind, Option.bind_some]
      rfl
    · rw [hgen₂, hgen, mutations, hstep, wrap, wrap, wrap, Nat.mod_add_mod, Nat.add_assoc]

end

structure Enumerates (kind : TreeKind K V N) (entries : N → List (Entry K V))
    (pairAt : Tree K V N → Nat → Option (Option (K × V))) (tree : Tree K V N) : Prop where
  list : ∃ links, EntryChain.Threads tree.chain links ∧
    links.map tree.record = (tree.pairs entries).map some
  range : Tree.collect tree.generation tree (tree.size + 1) ⟨false, none⟩ =
    some (tree.pairs entries)
  position : ∀ index, pairAt tree index = some (tree.pairs entries)[index]?
  mutated : ∀ ops, ∃ replies tree', Tree.run kind tree ops = some (replies, tree') ∧
    (0 < mutations kind tree ops → mutations kind tree ops < 2 ^ 64 → ∀ constructs cursor,
      next tree.generation tree' constructs cursor = some (.mutated, none, cursor))

theorem Inv.enumerates (laws : Laws cmp kind entries Shape) (h : Inv cmp entries Shape tree)
    (hg : tree.generation ≤ sizeMax) {pairAt : Tree K V N → Nat → Option (Option (K × V))}
    (hat : ∀ index, pairAt tree index = some (tree.pairs entries)[index]?) :
    Enumerates kind entries pairAt tree := by
  refine ⟨⟨_,h.threads,?_⟩,h.collect,hat,fun ops => ?_⟩
  · rw [pairs, List.map_map, List.map_map]
    exact List.map_congr_left h.record
  · obtain ⟨replies,tree',hrun,-,hgen⟩ := h.generation laws hg ops
    refine ⟨replies,tree',hrun,fun hpos hlt constructs cursor => ?_⟩
    rw [next, if_pos]
    rw [hgen, wrap]
    omega

/-- Every `put` finds the nodes it takes in the pool it has reserved, and one that fails leaves the
tree as it was. -/
structure PutSafe (kind : TreeKind K V N) (tree : Tree K V N) : Prop where
  reserved : ∀ env pool, poolPrepare env (levels kind tree.root) (tree.serial + 1) = .ok pool →
    pool = List.range' (tree.serial + 1) (levels kind tree.root + 2)
  taken : ∀ key value, tree.find kind (fun e => { e with value := value }) key = some none →
    ∃ used ≤ levels kind tree.root + 2, ∀ count, used ≤ count → ∃ root next,
      kind.insert (List.range' (tree.serial + 1) count) tree.root ⟨key, value, tree.serial⟩ =
        some (root, List.range' (tree.serial + 1 + used) (count - used), next)
  failed : ∀ env key value, ∃ s tree', put kind env tree key value = some (s, tree') ∧
    (s ≠ .ok → tree' = tree)

theorem Inv.putSafe (laws : Laws cmp kind entries Shape) (h : Inv cmp entries Shape tree) :
    PutSafe kind tree := by
  refine ⟨fun env pool hpool => ?_,fun key value hfind => ?_,fun env key value => ?_⟩
  · rcases poolPrepare_cases env (levels kind tree.root) (tree.serial + 1) with hok | ⟨s,herr,-⟩
    · rw [hok] at hpool
      exact (Except.ok.inj hpool).symm
    · rw [herr] at hpool
      cases hpool
  · rcases h.find laws (fun e => { e with value := value }) (fun _ => rfl) key with
      ⟨-,habsent⟩ | ⟨A,e,B,n,hfound,-⟩
    · obtain ⟨used,hused,A,B,n,-,-,-,-,hinsert⟩ := h.insert laws key value habsent
      exact ⟨used,hused,fun count hcount => ⟨_,_,hinsert count hcount⟩⟩
    · rw [hfind] at hfound
      cases hfound
  · obtain ⟨s,tree',hput,⟨hs,-⟩ | ⟨-,heq,-⟩⟩ := h.put laws env key value
    · exact ⟨s,tree',hput,fun hne => absurd hs hne⟩
    · exact ⟨s,tree',hput,fun _ => heq⟩

end Calls

end Tree

namespace BTree

open Cstl.Tree

namespace Node

variable {E : Type} {t h : Nat}

def nthKeys (target : Nat) : List E → Nat → E ⊕ Nat
  | [], cursor => .inr cursor
  | e :: entries, cursor => if cursor = target then .inl e else nthKeys target entries (cursor + 1)

mutual

def nth (target : Nat) : Node E → Nat → Option (E ⊕ Nat)
  | mk true entries _, cursor => some (nthKeys target entries cursor)
  | mk false _ [], _ => none
  | mk false entries (child :: children), cursor => do
    match ← nth target child cursor with
    | .inl e => return .inl e
    | .inr cursor => nthRest target entries children cursor

def nthRest (target : Nat) : List E → List (Node E) → Nat → Option (E ⊕ Nat)
  | [], _, cursor => some (.inr cursor)
  | _ :: _, [], _ => none
  | e :: entries, child :: children, cursor =>
    if cursor = target then some (.inl e)
    else do
      match ← nth target child (cursor + 1) with
      | .inl e => return .inl e
      | .inr cursor => nthRest target entries children cursor

end

def reaches (target : Nat) (l : List E) (cursor : Nat) : E ⊕ Nat :=
  match l[target - cursor]? with
  | some e => .inl e
  | none => .inr (cursor + l.length)

variable {target cursor : Nat}

theorem nthKeys_eq (l : List E) (hle : cursor ≤ target) :
    nthKeys target l cursor = reaches target l cursor := by
  induction l generalizing cursor with
  | nil => rfl
  | cons e l ih =>
    rw [nthKeys]
    split
    · rename_i heq
      simp [reaches, heq]
    · rw [ih (by omega), reaches, reaches, show target-cursor = target-(cursor+1)+1 by omega,
        List.getElem?_cons_succ, List.length_cons]
      rw [show cursor+1+l.length = cursor+(l.length+1) by omega]

theorem reaches_append (A B : List E) (hle : cursor ≤ target) :
    (∃ e, reaches target A cursor = .inl e ∧ reaches target (A ++ B) cursor = .inl e) ∨
      reaches target A cursor = .inr (cursor + A.length) ∧ cursor + A.length ≤ target ∧
        reaches target (A ++ B) cursor = reaches target B (cursor + A.length) := by
  rcases Nat.lt_or_ge (target - cursor) A.length with hlt | hge
  · refine .inl ⟨A[target-cursor],?_,?_⟩
    · simp [reaches, hlt]
    · simp [reaches, List.getElem?_append_left hlt, hlt]
  · refine .inr ⟨?_,by omega,?_⟩
    · simp [reaches, hge]
    · simp [reaches, List.getElem?_append_right hge, Nat.sub_sub, Nat.add_assoc]

theorem nthRest_eq {es : List E} {cs : List (Node E)} (hlen : cs.length = es.length)
    (hcs : ∀ c ∈ cs, ∀ {cursor}, cursor ≤ target →
      nth target c cursor = some (reaches target (inorder c) cursor))
    (hle : cursor ≤ target) : nthRest target es cs cursor = some (reaches target (weave es cs) cursor) := by
  induction cs generalizing es cursor with
  | nil =>
    rw [List.length_eq_zero_iff.1 hlen.symm]
    rfl
  | cons c cs ih =>
    cases es with
    | nil => cases hlen
    | cons e es =>
      obtain ⟨hc,hcs⟩ := List.forall_mem_cons.1 hcs
      rw [nthRest, weave]
      split
      · rename_i heq
        simp [reaches, heq]
      · have hsucc : reaches target (e :: (inorder c ++ weave es cs)) cursor =
            reaches target (inorder c ++ weave es cs) (cursor+1) := by
          simp only [reaches]
          rw [show target-cursor = target-(cursor+1)+1 by omega, List.getElem?_cons_succ,
            List.length_cons, Nat.add_assoc, Nat.add_comm 1]
        rw [hc (by omega), hsucc]
        rcases reaches_append (inorder c) (weave es cs) (show cursor + 1 ≤ target by omega) with
          ⟨e',hin,hout⟩ | ⟨hin,hle',hout⟩
        · rw [hin, hout]
          rfl
        · rw [hin, hout]
          exact ih (Nat.succ.inj hlen) hcs hle'

theorem nth_eq {n : Node E} (hwf : WF t h n) (hle : cursor ≤ target) :
    nth target n cursor = some (reaches target (inorder n) cursor) := by
  induction h generalizing n cursor with
  | zero =>
    obtain ⟨l,es,cs⟩ := n
    obtain ⟨rfl,hcs⟩ := hwf
    rw [List.length_eq_zero_iff.1 hcs, nth, nthKeys_eq es hle, inorder]
  | succ h ih =>
    obtain ⟨l,es,cs⟩ := n
    obtain ⟨rfl,hlen,hcs⟩ := hwf
    cases cs with
    | nil => cases hlen
    | cons c cs =>
      obtain ⟨hc,hcs⟩ := List.forall_mem_cons.1 hcs
      rw [nth, inorder, ih hc.1 hle]
      rcases reaches_append (inorder c) (weave es cs) hle with ⟨e,hin,hout⟩ | ⟨hin,hle',hout⟩
      · rw [hin, hout]
        rfl
      · rw [hin, hout]
        exact nthRest_eq (Nat.succ.inj hlen) (fun c hc => ih (hcs c hc).1) hle'

end Node

variable {K V : Type} {cmp : K → K → Ordering} {t : Nat}

def pairAt (tree : Tree K V (BNode K V)) (index : Nat) : Option (Option (K × V)) :=
  if index < tree.size then
    match tree.root with
    | none => some none
    | some root => (root.nth index 0).map fun found => found.getLeft?.map pair
  else some none

theorem pairAt_eq {Shape : Nat → BNode K V → Prop} {tree : Tree K V (BNode K V)}
    (hinv : Inv cmp Node.inorder Shape tree) (hwf : ∀ n ∈ tree.root, ∃ h, n.WF t h) (index : Nat) :
    pairAt tree index = some (tree.pairs Node.inorder)[index]? := by
  unfold pairAt
  split
  · cases hroot : tree.root with
    | none => simp [pairs, entriesOf, hroot]
    | some n =>
      obtain ⟨h,hn⟩ := hwf n hroot
      simp only [Node.nth_eq hn (Nat.zero_le index), Node.reaches, pairs, entriesOf, hroot,
        Option.map_some, Option.getD_some, List.getElem?_map]
      cases (Node.inorder n)[index]? <;> rfl
  · rename_i hge
    rw [hinv.size, Nat.not_lt] at hge
    rw [pairs, List.getElem?_map, List.getElem?_eq_none hge]
    rfl

end BTree

namespace BPlus

open Cstl.Tree PNode

variable {K V : Type} {cmp : K → K → Ordering} {t h b : Nat}

def leftmost : PNode K V → Option (Leaf K V)
  | .mk fields [] => if fields.isLeaf then some ⟨fields.id, fields.next, fields.entries⟩ else none
  | .mk fields (child :: _) =>
    if fields.isLeaf then some ⟨fields.id, fields.next, fields.entries⟩ else leftmost child

/-- The loop of `bplus_pair_at` along the leaves. -/
def pairFrom (root : PNode K V) : Nat → Leaf K V → Nat → Option (Option (Entry K V))
  | 0, _, _ => none
  | fuel + 1, leaf, index =>
    if index < leaf.entries.length then some leaf.entries[index]?
    else
      match leaf.next with
      | none => some none
      | some id => do
        let next ← leafNamed root id
        pairFrom root fuel next (index - leaf.entries.length)

def pairAt (tree : Tree K V (PNode K V)) (index : Nat) : Option (Option (K × V)) :=
  if index < tree.size then
    match tree.root with
    | none => some none
    | some root => do
      let leaf ← leftmost root
      return (← pairFrom root root.leaves.length leaf index).map pair
  else some none

variable {n : PNode K V}

theorem leftmost_eq (hwf : WF t h n) : ∃ l L, leaves n = l :: L ∧ leftmost n = some l := by
  induction h generalizing n with
  | zero =>
    obtain ⟨f,cs⟩ := n
    have hleaf : f.isLeaf = true := hwf.1
    rw [hwf.ready.leaves_leaf, show cs = [] from hwf.2.1]
    exact ⟨_,_,rfl,by simp [leftmost, hleaf]⟩
  | succ h ih =>
    obtain ⟨f,cs⟩ := n
    have hr := hwf.ready
    have hleaf : f.isLeaf = false := hwf.1
    rw [hr.leaves_eq]
    cases cs with
    | nil => exact absurd rfl hwf.2.2.1
    | cons c cs =>
      obtain ⟨l,L,hl,hleft⟩ := ih (hwf.2.2.2.2.2 c List.mem_cons_self).1
      refine ⟨l,L ++ leavesOf cs,by rw [leavesOf_cons, hl]; rfl,?_⟩
      simp [leftmost, hleaf, hleft]

theorem pairFrom_eq (hr : Rooted t b n) {A B : List (Leaf K V)} {l : Leaf K V}
    (heq : leaves n = A ++ l :: B) (fuel : Nat) (hfuel : B.length < fuel) (index : Nat) :
    pairFrom n fuel l index = some ((l :: B).flatMap Leaf.entries)[index]? := by
  induction fuel generalizing A B l index with
  | zero => cases hfuel
  | succ fuel ih =>
    have hlinked := hr.linked
    rw [heq, linked_append] at hlinked
    have hnext := hlinked.2.1
    rw [pairFrom, List.flatMap_cons, hnext]
    split
    · rename_i hlt
      rw [List.getElem?_append_left hlt]
    · rename_i hge
      rw [List.getElem?_append_right (Nat.not_lt.1 hge)]
      cases B with
      | nil => rfl
      | cons m B =>
        rw [List.append_cons] at heq
        simp only [headOr, hr.leafNamed heq]
        exact ih heq (Nat.lt_of_succ_lt_succ hfuel) _

theorem pairAt_eq {tree : Tree K V (PNode K V)} (hinv : Inv cmp flat (Rooted t) tree) (index : Nat) :
    pairAt tree index = some (tree.pairs flat)[index]? := by
  unfold pairAt
  split
  · cases hroot : tree.root with
    | none => simp [pairs, entriesOf, hroot]
    | some n =>
      have hr := hinv.shape n hroot
      obtain ⟨h,hwf⟩ := hr.wf
      obtain ⟨l,L,hl,hleft⟩ := leftmost_eq hwf
      simp only [hleft, Option.bind_eq_bind, Option.bind_some,
        pairFrom_eq hr (A := []) hl n.leaves.length (by simp [hl])]
      rw [pairs, entriesOf, hroot, List.getElem?_map, ← hl]
      rfl
  · rename_i hge
    rw [hinv.size, Nat.not_lt] at hge
    rw [pairs, List.getElem?_map, List.getElem?_eq_none hge]
    rfl

end BPlus

section Trees

open Std Cstl.Tree BTree BPlus

variable {K V : Type} {cmp : K → K → Ordering} {t : Nat}

/-- After any run of calls, the list of the entries, a range over it and the lookup by position
enumerate the tree in order, and a range that was started before fewer than `2 ^ 64` changes of the
tree reports them. -/
theorem trees_enumerate [TransCmp cmp] (ht : 2 ≤ t) (entryLimit generation : Nat)
    (ops : List (Op K V)) :
    (∃ replies tree, run (btree cmp t) (init K V _ entryLimit generation) ops =
        some (replies, tree) ∧ Enumerates (btree cmp t) Node.inorder BTree.pairAt tree) ∧
    ∃ replies tree, run (bplusTree cmp t) (init K V _ entryLimit generation) ops =
        some (replies, tree) ∧ Enumerates (bplusTree cmp t) PNode.flat BPlus.pairAt tree := by
  constructor
  · have laws : Laws cmp (btree (V := V) cmp t) _ _ := btree_laws ht
    obtain ⟨replies,tree,hrun,hinv,hgen⟩ :=
      (inv_init cmp Node.inorder (fun _ => BTree.Rooted t) entryLimit generation).generation laws
        (wrap_le _) ops
    refine ⟨replies,tree,hrun,hinv.enumerates laws (hgen ▸ wrap_le _) ?_⟩
    exact BTree.pairAt_eq hinv fun n hn => (hinv.shape n hn).imp fun _ hn => hn.1
  · have laws : Laws cmp (bplusTree (V := V) cmp t) _ _ := bplus_laws ht
    obtain ⟨replies,tree,hrun,hinv,hgen⟩ :=
      (inv_init cmp PNode.flat (BPlus.Rooted t) entryLimit generation).generation laws (wrap_le _)
        ops
    exact ⟨replies,tree,hrun,hinv.enumerates laws (hgen ▸ wrap_le _) (BPlus.pairAt_eq hinv)⟩

/-- After its first five calls the run has split the root and not merged it again. -/
theorem trees_enumerate_split :
    (∃ tree, run (btree compare 2) (init Nat Nat _ 8 0) (reshaping.take 5) =
        some (reshapingReplies.take 5, tree) ∧
      tree.pairs Node.inorder = [(2, 20), (3, 30), (4, 40)] ∧
      Enumerates (btree compare 2) Node.inorder BTree.pairAt tree) ∧
    ∃ tree, run (bplusTree compare 2) (init Nat Nat _ 8 0) (reshaping.take 5) =
        some (reshapingReplies.take 5, tree) ∧
      tree.pairs PNode.flat = [(2, 20), (3, 30), (4, 40)] ∧
      Enumerates (bplusTree compare 2) PNode.flat BPlus.pairAt tree :=
  have h := trees_enumerate (by decide) 8 0 (reshaping.take 5)
  ⟨run_shows (by decide +kernel) h.1,run_shows (by decide +kernel) h.2⟩

def single (generation : Nat) : Tree Nat Nat (BNode Nat Nat) where
  root := some (.mk true [⟨0, 0, 0⟩] [])
  size := 1
  entryLimit := 8
  generation := generation
  chain := EntryChain.insertBefore EntryChain.empty none 0
  record := Function.update (fun _ => none) 0 (some (0, 0))
  serial := 3

def putZero : Op Nat Nat := .put ⟨.ok, .ok, true, true⟩ 0 0

theorem step_single (g : Nat) :
    step (btree compare 2) (single g) putZero = some (.status .ok, single (wrap (g + 1))) := by
  have hbound : bound compare [(⟨0,0,0⟩)] 0 = 0 :=
    SortedMap.lowerBound_append (A := []) nofun (by simp)
  have hfind : (single g).find (btree compare 2) (fun e => { e with value := 0 }) 0 =
      some (some (.mk true [⟨0,0,0⟩] [],⟨0,0,0⟩)) := by
    simp only [find, single, btree, BTree.modify, Node.levels, hbound]
    rfl
  simp only [step, putZero, put, hfind]
  simp [overwrite, bump, single]

theorem run_single (n g : Nat) (hg : g ≤ sizeMax) :
    run (btree compare 2) (single g) (List.replicate n putZero) =
        some (List.replicate n (.status .ok), single (wrap (g + n))) ∧
      mutations (btree compare 2) (single g) (List.replicate n putZero) = n := by
  induction n generalizing g with
  | zero => exact ⟨by rw [Nat.add_zero, wrap_of_le hg]; rfl,rfl⟩
  | succ n ih =>
    obtain ⟨hrun,hcount⟩ := ih _ (wrap_le (g + 1))
    constructor
    · rw [List.replicate_succ, run, step_single]
      simp only [Option.bind_eq_bind, Option.bind_some, hrun]
      rw [wrap, wrap, Nat.mod_add_mod, Nat.add_assoc, Nat.add_comm 1 n]
      rfl
    · rw [List.replicate_succ, mutations, mutates, step_single]
      simp [hcount, Nat.add_comm]

/-- The generation comes round: behind `2 ^ 64` changes a range goes on. -/
theorem wrapped_range_yields : ∃ (before after : List (Op Nat Nat)) (replies replies' : _)
    (tree tree' : _), run (btree compare 2) (init Nat Nat _ 8 0) before = some (replies, tree) ∧
      run (btree compare 2) tree after = some (replies', tree') ∧
      0 < mutations (btree compare 2) tree after ∧
      next tree.generation tree' true ⟨false, none⟩ =
        some (.valueAndDone, some (0, 0), ⟨true, none⟩) := by
  obtain ⟨hrun,hcount⟩ := run_single (2 ^ 64) 2 (by decide)
  refine ⟨[putZero],List.replicate (2 ^ 64) putZero,[.status .ok],_,single 2,_,?_,hrun,?_,?_⟩
  · rfl
  · rw [hcount]
    decide
  · rfl

/-- After any run of calls, a `put` takes no more nodes than it has reserved, and a `put` that fails
leaves the tree as it was. -/
theorem trees_put_safe [TransCmp cmp] (ht : 2 ≤ t) (entryLimit generation : Nat)
    (ops : List (Op K V)) :
    (∃ replies tree, run (btree cmp t) (init K V _ entryLimit generation) ops =
        some (replies, tree) ∧ PutSafe (btree cmp t) tree) ∧
    ∃ replies tree, run (bplusTree cmp t) (init K V _ entryLimit generation) ops =
        some (replies, tree) ∧ PutSafe (bplusTree cmp t) tree := by
  constructor
  · have laws : Laws cmp (btree (V := V) cmp t) _ _ := btree_laws ht
    obtain ⟨replies,tree,hrun,hinv,-⟩ :=
      (inv_init cmp Node.inorder (fun _ => BTree.Rooted t) entryLimit generation).run laws ops
    exact ⟨replies,tree,hrun,hinv.putSafe laws⟩
  · have laws : Laws cmp (bplusTree (V := V) cmp t) _ _ := bplus_laws ht
    obtain ⟨replies,tree,hrun,hinv,-⟩ :=
      (inv_init cmp PNode.flat (BPlus.Rooted t) entryLimit generation).run laws ops
    exact ⟨replies,tree,hrun,hinv.putSafe laws⟩

theorem trees_put_safe_split :
    (∃ tree, run (btree compare 2) (init Nat Nat _ 8 0) (reshaping.take 5) =
        some (reshapingReplies.take 5, tree) ∧
      tree.pairs Node.inorder = [(2, 20), (3, 30), (4, 40)] ∧ PutSafe (btree compare 2) tree) ∧
    ∃ tree, run (bplusTree compare 2) (init Nat Nat _ 8 0) (reshaping.take 5) =
        some (reshapingReplies.take 5, tree) ∧
      tree.pairs PNode.flat = [(2, 20), (3, 30), (4, 40)] ∧ PutSafe (bplusTree compare 2) tree :=
  have h := trees_put_safe (by decide) 8 0 (reshaping.take 5)
  ⟨run_shows (by decide +kernel) h.1,run_shows (by decide +kernel) h.2⟩

end Trees

end Salts.Cstl
