import Salts.CstlTree

/-!
The nodes of `btree.c`: insertion splits full nodes on the way down, deletion borrows or merges
before it descends, so that a child always has a key to spare.
-/

namespace Salts.Cstl.BTree

open SortedMap (lowerBound)
open List (append_assoc cons_append length_append length_cons length_eq_zero_iff mem_append mem_cons
  mem_cons_self)

inductive Node (E : Type)
  | mk (leaf : Bool) (entries : List E) (children : List (Node E))

namespace Node

variable {E : Type}

def leaf : Node E → Bool
  | mk leaf _ _ => leaf

def entries : Node E → List E
  | mk _ entries _ => entries

def children : Node E → List (Node E)
  | mk _ _ children => children

def numKeys (node : Node E) : Nat := node.entries.length

@[simp] theorem numKeys_mk (l : Bool) (es : List E) (cs : List (Node E)) :
    (mk l es cs).numKeys = es.length := rfl

mutual

def inorder : Node E → List E
  | mk _ entries [] => entries
  | mk _ entries (child :: children) => inorder child ++ weave entries children

def weave : List E → List (Node E) → List E
  | entries, [] => entries
  | [], _ :: _ => []
  | e :: entries, child :: children => e :: (inorder child ++ weave entries children)

end

def levels : Node E → Nat
  | mk _ _ [] => 1
  | mk true _ (_ :: _) => 1
  | mk false _ (child :: _) => levels child + 1

end Node

variable {K V : Type}

abbrev BNode (K V : Type) := Node (Entry K V)

section Order

variable (cmp : K → K → Ordering)

def bound (entries : List (Entry K V)) (key : K) : Nat := lowerBound Entry.key cmp entries key

def matchAt (entries : List (Entry K V)) (index : Nat) (key : K) : Option (Entry K V) :=
  entries[index]?.filter fun e => cmp e.key key == .eq

/-- `btree_find_entry` with the assignment its caller makes to the entry it finds. -/
def modify (f : Entry K V → Entry K V) : Nat → BNode K V → K → Option (Option (BNode K V × Entry K V))
  | 0, _, _ => none
  | fuel + 1, .mk leaf entries children, key =>
    let index := bound cmp entries key
    match matchAt cmp entries index key with
    | some e => some (some (.mk leaf (entries.set index (f e)) children, e))
    | none =>
      if leaf then some none
      else do
        let child ← children[index]?
        let found ← modify f fuel child key
        return found.map fun (child, e) => (.mk leaf entries (children.set index child), e)

end Order

/-- `btree_split_child`: the median of a full child moves up and the entries after it into a node
of the pool. -/
def splitChild (t : Nat) : BNode K V → Nat → Option (BNode K V)
  | .mk leaf entries children, index => do
      let .mk childLeaf es cs ← children[index]?
      let median ← es[t - 1]?
      let left := .mk childLeaf (es.take (t - 1)) (cs.take t)
      let right := .mk childLeaf ((es.drop t).take (t - 1)) ((cs.drop t).take t)
      return .mk leaf (entries.insertIdx index median)
        ((children.set index left).insertIdx (index + 1) right)

def poolTake : List Nat → Option (List Nat)
  | [] => none
  | _ :: pool => some pool

/-- The descent of `btree_insert_prepared`; it keeps the link after the key in `next`. -/
def insertInto (cmp : K → K → Ordering) (t : Nat) (entry : Entry K V) :
    Nat → BNode K V → List Nat → Option Nat → Option (BNode K V × List Nat × Option Nat)
  | 0, _, _, _ => none
  | fuel + 1, .mk leaf entries children, pool, next =>
    let index := bound cmp entries entry.key
    let next := (entries[index]?.map Entry.link).or next
    if leaf then some (.mk leaf (entries.insertIdx index entry) children, pool, next)
    else do
      let child ← children[index]?
      if child.numKeys = 2 * t - 1 then
        let pool ← poolTake pool
        let .mk leaf entries children ← splitChild t (.mk leaf entries children) index
        let median ← entries[index]?
        let (index, next) := if cmp entry.key median.key = .gt then (index + 1, next)
          else (index, some median.link)
        let child ← children[index]?
        let (child, pool, next) ← insertInto cmp t entry fuel child pool next
        return (.mk leaf entries (children.set index child), pool, next)
      else
        let (child, pool, next) ← insertInto cmp t entry fuel child pool next
        return (.mk leaf entries (children.set index child), pool, next)

def insertPrepared (cmp : K → K → Ordering) (t : Nat) (pool : List Nat) (root : Option (BNode K V))
    (entry : Entry K V) : Option (BNode K V × List Nat × Option Nat) :=
  match root with
  | none => do
      let pool ← poolTake pool
      return (.mk true [entry] [], pool, none)
  | some root =>
    if root.numKeys = 2 * t - 1 then do
      let pool ← poolTake pool
      let pool ← poolTake pool
      let root ← splitChild t (.mk false [] [root]) 0
      insertInto cmp t entry (root.levels) root pool none
    else insertInto cmp t entry root.levels root pool none

/-- `btree_borrow_previous`: the last entry and child of the sibling before the child rotate
through the parent. -/
def borrowPrevious : BNode K V → Nat → Option (BNode K V)
  | .mk leaf entries children, index => do
      let .mk childLeaf es cs ← children[index]?
      let .mk siblingLeaf es' cs' ← children[index - 1]?
      let separator ← entries[index - 1]?
      let last ← es'.getLast?
      let child := .mk childLeaf (separator :: es) (cs'.getLast?.toList ++ cs)
      let sibling := .mk siblingLeaf es'.dropLast cs'.dropLast
      return .mk leaf (entries.set (index - 1) last)
        ((children.set index child).set (index - 1) sibling)

def borrowNext : BNode K V → Nat → Option (BNode K V)
  | .mk leaf entries children, index => do
      let .mk childLeaf es cs ← children[index]?
      let .mk siblingLeaf es' cs' ← children[index + 1]?
      let separator ← entries[index]?
      let first ← es'.head?
      let child := .mk childLeaf (es ++ [separator]) (cs ++ cs'.head?.toList)
      let sibling := .mk siblingLeaf es'.tail cs'.tail
      return .mk leaf (entries.set index first)
        ((children.set index child).set (index + 1) sibling)

/-- `btree_merge_children`: the parent without the separator and the right child, and the child
that takes both in. -/
def mergeChildren : BNode K V → Nat → Option (BNode K V × BNode K V)
  | .mk leaf entries children, index => do
      let .mk leftLeaf es cs ← children[index]?
      let .mk _ es' cs' ← children[index + 1]?
      let separator ← entries[index]?
      let left := .mk leftLeaf (es ++ separator :: es') (cs ++ cs')
      return (.mk leaf (entries.eraseIdx index) ((children.set index left).eraseIdx (index + 1)),
        left)

def lastEntry : Nat → BNode K V → Option (Entry K V)
  | 0, _ => none
  | fuel + 1, .mk leaf entries children =>
    if leaf then entries.getLast?
    else do lastEntry fuel (← children[entries.length]?)

def firstEntry : Nat → BNode K V → Option (Entry K V)
  | 0, _ => none
  | fuel + 1, .mk leaf entries children =>
    if leaf then entries[0]?
    else do firstEntry fuel (← children[0]?)

def withChild (node : BNode K V) (index : Nat) (result : BNode K V × Entry K V) :
    BNode K V × Entry K V :=
  (.mk node.leaf node.entries (node.children.set index result.1), result.2)

def deleteStructural (cmp : K → K → Ordering) (t : Nat) :
    Nat → BNode K V → K → Option (BNode K V × Entry K V)
  | 0, _, _ => none
  | fuel + 1, node@(.mk leaf entries children), key =>
    let index := bound cmp entries key
    match matchAt cmp entries index key with
    | some removed =>
      if leaf then some (.mk leaf (entries.eraseIdx index) children, removed)
      else do
        let left ← children[index]?
        if left.numKeys ≥ t then
          let pred ← lastEntry fuel left
          let (left, _) ← deleteStructural cmp t fuel left pred.key
          return (.mk leaf (entries.set index pred) (children.set index left), removed)
        let right ← children[index + 1]?
        if right.numKeys ≥ t then
          let succ ← firstEntry fuel right
          let (right, _) ← deleteStructural cmp t fuel right succ.key
          return (.mk leaf (entries.set index succ) (children.set (index + 1) right), removed)
        let (node, merged) ← mergeChildren node index
        return withChild node index (← deleteStructural cmp t fuel merged key)
    | none => do
        let child ← children[index]?
        if child.numKeys = t - 1 then
          if 0 < index ∧ ∃ left ∈ children[index - 1]?, left.numKeys ≥ t then
            deleteStructural cmp t fuel (← borrowPrevious node index) key
          else if index < entries.length ∧ ∃ right ∈ children[index + 1]?, right.numKeys ≥ t then
            deleteStructural cmp t fuel (← borrowNext node index) key
          else
            let index := if index < entries.length then index else index - 1
            let (node, merged) ← mergeChildren node index
            return withChild node index (← deleteStructural cmp t fuel merged key)
        else
          return withChild node index (← deleteStructural cmp t fuel child key)

def remove (cmp : K → K → Ordering) (t : Nat) (root : BNode K V) (key : K) :
    Option (Option (BNode K V) × Entry K V) := do
  let (root, removed) ← deleteStructural cmp t (2 * root.levels) root key
  if root.numKeys = 0 then
    return (if root.leaf then none else root.children[0]?, removed)
  return (some root, removed)

def btree (cmp : K → K → Ordering) (t : Nat) : TreeKind K V (BNode K V) where
  levels := Node.levels
  modify f root key := modify cmp f root.levels root key
  insert := insertPrepared cmp t
  delete := remove cmp t

/-! ### The list of entries below a node -/

open Std
open SortedMap (Ordered Before After lowerBound_append ordered_mid exists_append_of_le
  exists_mid_of_lt)

namespace Node

variable {E : Type} {t h : Nat} {l : Bool}

def Arity : Nat → Nat → Nat → Prop
  | 0, _, children => children = 0
  | _ + 1, keys, children => children = keys + 1

/-- All leaves below the node are `h` levels down, and every node below it has between `t - 1` and
`2 t - 1` keys. -/
def WF (t : Nat) : Nat → Node E → Prop
  | 0, mk leaf entries children => leaf = true ∧ Arity 0 entries.length children.length
  | h + 1, mk leaf entries children =>
    leaf = false ∧ Arity (h + 1) entries.length children.length ∧
      ∀ c ∈ children, WF t h c ∧ t - 1 ≤ c.numKeys ∧ c.numKeys ≤ 2 * t - 1

def Fits (t h : Nat) (n : Node E) : Prop := WF t h n ∧ t - 1 ≤ n.numKeys ∧ n.numKeys ≤ 2 * t - 1

variable {es A B : List E} {cs P Q : List (Node E)} {m s : E} {c : Node E}

theorem wf_iff :
    WF t h (mk l es cs) ↔
      l = (h == 0) ∧ Arity h es.length cs.length ∧ ∀ c ∈ cs, Fits t (h - 1) c := by
  cases h with
  | zero =>
    constructor
    · intro ⟨hl,hcs⟩
      rw [length_eq_zero_iff.1 hcs]
      exact ⟨hl,rfl,nofun⟩
    · exact fun ⟨hl,hcs,_⟩ => ⟨hl,hcs⟩
  | succ h => exact Iff.rfl

theorem WF.arity (hwf : WF t h (mk l es cs)) : Arity h es.length cs.length := (wf_iff.1 hwf).2.1

theorem levels_eq {n : Node E} (hwf : WF t h n) : n.levels = h + 1 := by
  induction h generalizing n with
  | zero =>
    obtain ⟨l,es,cs⟩ := n
    rw [length_eq_zero_iff.1 hwf.2]
    rfl
  | succ h ih =>
    obtain ⟨l,es,cs⟩ := n
    obtain ⟨rfl,hlen,hcs⟩ := hwf
    cases cs with
    | nil => cases hlen
    | cons c cs =>
      rw [levels, ih (hcs c mem_cons_self).1]

theorem Arity.cut (har : Arity h (A ++ m :: B).length cs.length) :
    ∃ P Q, cs = P ++ Q ∧ Arity h A.length P.length ∧ Arity h B.length Q.length := by
  cases h with
  | zero =>
    rw [length_eq_zero_iff.1 har]
    exact ⟨[],[],rfl,rfl,rfl⟩
  | succ h =>
    simp only [Arity, length_append, length_cons] at har
    obtain ⟨P,Q,rfl,hP⟩ := exists_append_of_le (l := cs) (n := A.length + 1) (by omega)
    rw [length_append] at har
    exact ⟨P,Q,rfl,hP,show Q.length = B.length+1 by omega⟩

theorem Arity.join (hP : Arity h A.length P.length)
    (hQ : Arity h B.length Q.length) : Arity h (A ++ m :: B).length (P ++ Q).length := by
  cases h with
  | zero =>
    simp only [Arity, length_append] at *
    omega
  | succ h =>
    simp only [Arity, length_append, length_cons] at *
    omega

theorem Arity.child (har : Arity (h + 1) (A ++ B).length cs.length) :
    ∃ P c Q, cs = P ++ c :: Q ∧ P.length = A.length ∧ Q.length = B.length := by
  simp only [Arity, length_append] at har
  obtain ⟨P,c,Q,rfl,hP⟩ := exists_mid_of_lt (l := cs) (n := A.length) (by omega)
  rw [length_append, length_cons] at har
  exact ⟨P,c,Q,rfl,hP,by omega⟩

theorem Arity.of_child (hP : P.length = A.length)
    (hQ : Q.length = B.length) : Arity (h + 1) (A ++ B).length (P ++ c :: Q).length := by
  simp only [Arity, length_append, length_cons]
  omega

def lead : List (Node E) → List E → List E
  | p :: P, a :: A => inorder p ++ a :: lead P A
  | _, _ => []

theorem inorder_cons (l : Bool) (a : E) (es : List E) (p x : Node E) (cs : List (Node E)) :
    inorder (mk l (a :: es) (p :: x :: cs)) = inorder p ++ a :: inorder (mk l es (x :: cs)) := by
  simp [inorder, weave]

theorem two_pow_le_inorder (ht : 2 ≤ t) {n : Node E} (hwf : WF t h n) (hpos : 1 ≤ n.numKeys) :
    2 ^ h ≤ (inorder n).length := by
  induction h generalizing n with
  | zero =>
    obtain ⟨l,es,cs⟩ := n
    rw [length_eq_zero_iff.1 hwf.2, inorder]
    exact hpos
  | succ h ih =>
    obtain ⟨l,es,cs⟩ := n
    obtain ⟨-,hlen,hcs⟩ := hwf
    have hchild : ∀ c ∈ cs, 2 ^ h ≤ (inorder c).length := fun c hc =>
      ih (hcs c hc).1 (by have := (hcs c hc).2.1; omega)
    obtain ⟨a,es,rfl⟩ := List.exists_cons_of_length_pos hpos
    simp only [Arity, length_cons] at hlen
    obtain ⟨p,cs,rfl⟩ := List.exists_cons_of_length_pos (l := cs) (by omega)
    obtain ⟨x,cs,rfl⟩ := List.exists_cons_of_length_pos (l := cs) (by
      rw [length_cons] at hlen
      omega)
    have hp := hchild p (by simp)
    have hx := hchild x (by simp)
    rw [inorder_cons, inorder, length_append, length_cons, length_append, Nat.pow_succ]
    omega

theorem inorder_focus (c : Node E) (hP : P.length = A.length) :
    inorder (mk l (A ++ B) (P ++ c :: Q)) = lead P A ++ (inorder c ++ weave B Q) := by
  induction P generalizing A with
  | nil =>
    rw [length_eq_zero_iff.1 hP.symm]
    rfl
  | cons p P ih =>
    cases A with
    | nil => cases hP
    | cons a A =>
      have := ih (Nat.succ.inj hP)
      cases P with
      | nil =>
        rw [cons_append, cons_append, List.nil_append, inorder_cons]
        rw [List.nil_append] at this
        rw [this, lead, append_assoc, cons_append]
      | cons x P =>
        rw [cons_append, cons_append, cons_append, inorder_cons]
        rw [cons_append] at this
        rw [this, lead, append_assoc, cons_append]

theorem inorder_pair (c d : Node E) (hP : P.length = A.length) :
    inorder (mk l (A ++ s :: B) (P ++ c :: d :: Q)) =
      lead P A ++ (inorder c ++ s :: (inorder d ++ weave B Q)) := by
  rw [inorder_focus c hP, weave]

theorem inorder_flag (l l' : Bool) (es : List E) (cs : List (Node E)) :
    inorder (mk l es cs) = inorder (mk l' es cs) := by
  cases cs <;> rfl

theorem exists_concat {α : Type} {xs : List α} (hpos : 0 < xs.length) : ∃ ys y, xs = ys ++ [y] :=
  ⟨_,_,(List.dropLast_append_getLast (List.length_pos_iff.1 hpos)).symm⟩

theorem inorder_join (hP : Arity h A.length P.length) (hQ : Arity h B.length Q.length) :
    inorder (mk l (A ++ m :: B) (P ++ Q)) = inorder (mk l A P) ++ m :: inorder (mk l B Q) := by
  cases h with
  | zero =>
    rw [length_eq_zero_iff.1 hP, length_eq_zero_iff.1 hQ]
    rfl
  | succ h =>
    obtain ⟨P,p,rfl⟩ := exists_concat (List.length_pos_of_ne_nil
      (List.ne_nil_of_length_eq_add_one hP))
    cases Q with
    | nil => cases hQ
    | cons q Q =>
      have hlen : P.length = A.length := by simpa [Arity] using hP
      have hleft := inorder_focus (l := l) (B := []) (Q := []) p hlen
      rw [List.append_nil] at hleft
      rw [append_assoc, List.singleton_append, inorder_pair p q hlen, hleft]
      simp [inorder, weave]

theorem inorder_tip : inorder (mk l [] [c]) = inorder c := by
  simp [inorder, weave]

theorem sublist_weave (es : List E) (cs : List (Node E)) : es.Sublist (weave es cs) := by
  induction cs generalizing es with
  | nil =>
    rw [weave]
  | cons c cs ih =>
    cases es with
    | nil => exact List.nil_sublist _
    | cons e es =>
      exact ((ih es).trans (List.sublist_append_right _ _)).cons_cons e

theorem sublist_inorder (l : Bool) (es : List E) (cs : List (Node E)) :
    es.Sublist (inorder (mk l es cs)) := by
  cases cs with
  | nil =>
    rw [inorder]
  | cons c cs => exact (sublist_weave es cs).trans (List.sublist_append_right _ _)

theorem head?_weave (hQ : Q.length = B.length) : (weave B Q).head? = B.head? := by
  cases B with
  | nil =>
    rw [List.length_eq_zero_iff.1 hQ, weave]
  | cons b B =>
    cases Q with
    | nil => cases hQ
    | cons q Q => rw [weave, List.head?_cons, List.head?_cons]

theorem WF.with_entries {es' : List E} (hwf : WF t h (mk l es cs))
    (hlen : es'.length = es.length) : WF t h (mk l es' cs) := by
  rw [wf_iff] at hwf ⊢
  rwa [hlen]

theorem WF.with_child {c' : Node E} (hwf : WF t (h + 1) (mk l A (P ++ c :: Q))) (hc : Fits t h c') :
    WF t (h + 1) (mk l A (P ++ c' :: Q)) := by
  obtain ⟨rfl,har,hcs⟩ := wf_iff.1 hwf
  refine wf_iff.2 ⟨rfl,by simpa using har,fun x hx => ?_⟩
  rcases mem_append.1 hx with hx | hx
  · exact hcs x (List.mem_append_left _ hx)
  · rcases mem_cons.1 hx with rfl | hx
    · exact hc
    · exact hcs x (List.mem_append_right _ (.tail _ hx))

theorem WF.child (hwf : WF t (h + 1) (mk l A (P ++ c :: Q))) : Fits t h c :=
  (wf_iff.1 hwf).2.2 c (List.mem_append_right _ mem_cons_self)

theorem WF.second {d : Node E} (hwf : WF t (h + 1) (mk l A (P ++ c :: d :: Q))) : Fits t h d :=
  (wf_iff.1 hwf).2.2 d (by simp)

theorem WF.with_pair {d x y : Node E}
    (hwf : WF t (h + 1) (mk l (A ++ s :: B) (P ++ c :: d :: Q))) (m : E) (hx : Fits t h x)
    (hy : Fits t h y) : WF t (h + 1) (mk l (A ++ m :: B) (P ++ x :: y :: Q)) := by
  have hfirst := hwf.with_child hx
  rw [List.append_cons P x (d :: Q)] at hfirst
  have hboth := hfirst.with_child hy
  rw [← List.append_cons P x (y :: Q)] at hboth
  exact hboth.with_entries (by simp)

theorem WF.halves (hwf : WF t h (mk l (A ++ m :: B) (P ++ Q))) (hP : Arity h A.length P.length)
    (hQ : Arity h B.length Q.length) : WF t h (mk l A P) ∧ WF t h (mk l B Q) := by
  rw [wf_iff] at hwf
  exact ⟨wf_iff.2 ⟨hwf.1,hP,fun c hc => hwf.2.2 c (List.mem_append_left Q hc)⟩,
    wf_iff.2 ⟨hwf.1,hQ,fun c hc => hwf.2.2 c (List.mem_append_right P hc)⟩⟩

theorem WF.join {l' : Bool} (hA : WF t h (mk l A P)) (hB : WF t h (mk l' B Q)) :
    WF t h (mk l (A ++ m :: B) (P ++ Q)) := by
  rw [wf_iff] at hA hB ⊢
  exact ⟨hA.1,hA.2.1.join hB.2.1,fun c hc =>
    (mem_append.1 hc).elim (hA.2.2 c) (hB.2.2 c)⟩

end Node

open Node

section Order

variable {K V : Type} {cmp : K → K → Ordering} {key : K}

variable {es A B : List (Entry K V)} {P Q : List (BNode K V)}

theorem ordered_entries {l : Bool} {cs : List (BNode K V)}
    (h : Ordered Entry.key cmp (inorder (.mk l es cs))) : Ordered Entry.key cmp es :=
  h.sublist (sublist_inorder l es cs)

variable [TransCmp cmp]

theorem before_lead {rest : List (Entry K V)} (h : Ordered Entry.key cmp (lead P A ++ rest))
    (hA : Before Entry.key cmp A key) : Before Entry.key cmp (lead P A) key := by
  induction P generalizing A with
  | nil => exact nofun
  | cons p P ih =>
    cases A with
    | nil => exact nofun
    | cons a A =>
      obtain ⟨ha,hA⟩ := List.forall_mem_cons.1 hA
      rw [lead, append_assoc] at h
      obtain ⟨-,hrest,hbefore,-⟩ := ordered_mid.1 h
      intro x hx
      rw [lead, mem_append, mem_cons] at hx
      rcases hx with hx | rfl | hx
      · exact TransCmp.lt_trans (hbefore x hx) ha
      · exact ha
      · exact ih hrest hA x hx

theorem after_weave (h : Ordered Entry.key cmp (weave B Q)) (hB : After Entry.key cmp key B) :
    After Entry.key cmp key (weave B Q) := by
  cases B with
  | nil => cases Q <;> exact nofun
  | cons b B =>
    have hb := hB b mem_cons_self
    cases Q with
    | nil => rwa [weave]
    | cons q Q =>
      exact List.forall_mem_cons.2 ⟨hb,fun x hx =>
        TransCmp.lt_trans hb ((List.pairwise_cons.1 h).1 x hx)⟩

theorem sides {l : Bool} {c : BNode K V}
    (h : Ordered Entry.key cmp (inorder (.mk l (A ++ B) (P ++ c :: Q)))) (hP : P.length = A.length)
    (hA : Before Entry.key cmp A key) (hB : After Entry.key cmp key B) :
    Ordered Entry.key cmp (inorder c) ∧ Before Entry.key cmp (lead P A) key ∧
      After Entry.key cmp key (weave B Q) := by
  rw [inorder_focus c hP] at h
  exact ⟨h.append.2.append.1,before_lead h hA,after_weave h.append.2.append.2 hB⟩

theorem bound_absent (hA : Before Entry.key cmp A key) (hB : After Entry.key cmp key B) :
    bound cmp (A ++ B) key = A.length ∧ matchAt cmp (A ++ B) A.length key = none := by
  refine ⟨lowerBound_append hA hB.not_lt,?_⟩
  cases B with
  | nil => simp [matchAt]
  | cons b B => simpa [matchAt] using hB.ne b mem_cons_self

/-- Where the search in an ordered node ends: at an entry with the key, or between the entries
before and after it. -/
theorem bound_cases (h : Ordered Entry.key cmp es) (key : K) :
    ∃ A, Before Entry.key cmp A key ∧ bound cmp es key = A.length ∧
      ((∃ e B, es = A ++ e :: B ∧ cmp e.key key = .eq ∧
          matchAt cmp es A.length key = some e) ∨
        ∃ B, es = A ++ B ∧ After Entry.key cmp key B ∧ matchAt cmp es A.length key = none) := by
  obtain ⟨A,B,rfl,hA,hB | ⟨e,B,rfl,he,hB⟩⟩ := h.cut key
  · obtain ⟨hbound,hmatch⟩ := bound_absent hA hB
    exact ⟨A,hA,hbound,.inr ⟨B,rfl,hB,hmatch⟩⟩
  · refine ⟨A,hA,lowerBound_append hA ?_,.inl ⟨e,B,rfl,he,?_⟩⟩
    · intro b hb
      rcases mem_cons.1 hb with rfl | hb
      · rw [he]
        nofun
      · exact hB.not_lt b hb
    · simp [matchAt, he]

end Order

end Salts.Cstl.BTree
