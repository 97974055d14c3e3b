import Salts.CstlTree

/-!
The nodes of `bplus_tree.c`.  The entries are in the leaves, which are chained from left to right;
an internal node keeps the first key below each child but the first.  A node is named by the serial
number of its allocation, and its fields hold such names where the source has pointers.
-/

namespace Salts.Cstl.BPlus

open SortedMap (lowerBound)
open List (append_nil count_append count_cons length_append length_map mem_append mem_cons_self)

structure Fields (K V : Type) where
  id : Nat
  parent : Option Nat
  isLeaf : Bool
  firstKey : Option K
  next : Option Nat
  separators : List (Option K)
  entries : List (Entry K V)

inductive PNode (K V : Type)
  | mk (fields : Fields K V) (children : List (PNode K V))

structure Leaf (K V : Type) where
  id : Nat
  next : Option Nat
  entries : List (Entry K V)

variable {K V : Type}

namespace PNode

def fields : PNode K V → Fields K V
  | mk fields _ => fields

def children : PNode K V → List (PNode K V)
  | mk _ children => children

def firstKey (node : PNode K V) : Option K := node.fields.firstKey

def numKeys : PNode K V → Nat
  | mk fields children => if fields.isLeaf then fields.entries.length else children.length - 1

def setParent (parent : Option Nat) : PNode K V → PNode K V
  | mk fields children => mk { fields with parent := parent } children

/-- `bplus_refresh_node`. -/
def refresh : PNode K V → PNode K V
  | mk fields children =>
    if fields.isLeaf then
      mk { fields with firstKey := fields.entries.head?.map Entry.key } children
    else
      mk { fields with
        firstKey := children.head?.bind firstKey
        separators := children.tail.map firstKey } children

mutual

def leaves : PNode K V → List (Leaf K V)
  | mk fields children =>
    if fields.isLeaf then [⟨fields.id, fields.next, fields.entries⟩] else leavesOf children

def leavesOf : List (PNode K V) → List (Leaf K V)
  | [] => []
  | child :: children => leaves child ++ leavesOf children

end

mutual

def ids : PNode K V → List Nat
  | mk fields children => fields.id :: idsOf children

def idsOf : List (PNode K V) → List Nat
  | [] => []
  | child :: children => ids child ++ idsOf children

end

def levels : PNode K V → Nat
  | mk _ [] => 1
  | mk fields (child :: _) => if fields.isLeaf then 1 else levels child + 1

def flat (node : PNode K V) : List (Entry K V) := node.leaves.flatMap Leaf.entries

end PNode

open PNode

@[simp] theorem leavesOf_cons (p : PNode K V) (P : List (PNode K V)) :
    leavesOf (p :: P) = leaves p ++ leavesOf P := by rw [leavesOf]

@[simp] theorem leavesOf_nil : leavesOf ([] : List (PNode K V)) = [] := by rw [leavesOf]

@[simp] theorem idsOf_cons (p : PNode K V) (P : List (PNode K V)) :
    idsOf (p :: P) = ids p ++ idsOf P := by rw [idsOf]

@[simp] theorem idsOf_nil : idsOf ([] : List (PNode K V)) = [] := by rw [idsOf]

@[simp] theorem leaves_setParent (p : Option Nat) (n : PNode K V) :
    leaves (n.setParent p) = leaves n := by
  obtain ⟨f,cs⟩ := n
  simp [setParent, leaves]

@[simp] theorem ids_setParent (p : Option Nat) (n : PNode K V) : ids (n.setParent p) = ids n := by
  obtain ⟨f,cs⟩ := n
  simp [setParent, ids]

section Order

variable (cmp : K → K → Ordering)

def childIndex (key : K) : List (Option K) → Option Nat
  | [] => some 0
  | none :: _ => none
  | some separator :: rest =>
    if cmp key separator ≠ .lt then (childIndex key rest).map (· + 1) else some 0

/-- The lookup of a key with the assignment the caller makes to the entry it finds. -/
def modify (f : Entry K V → Entry K V) : Nat → PNode K V → K → Option (Option (PNode K V × Entry K V))
  | 0, _, _ => none
  | fuel + 1, .mk fields children, key =>
    if fields.isLeaf then
      let index := lowerBound Entry.key cmp fields.entries key
      some ((fields.entries[index]?.filter fun e => cmp e.key key == .eq).map fun e =>
        (.mk { fields with entries := fields.entries.set index (f e) } children, e))
    else do
      let index ← childIndex cmp key fields.separators
      let child ← children[index]?
      let found ← modify f fuel child key
      return found.map fun (child, e) => (.mk fields (children.set index child), e)

end Order

def splitLeft (t right : Nat) : PNode K V → PNode K V
  | .mk fields children =>
    (PNode.mk
      { fields with
        entries := fields.entries.take t
        next := if fields.isLeaf then some right else fields.next }
      (children.take t)).refresh

/-- The node of the pool after it took what is behind the first `t` entries or children. -/
def splitRight (t right : Nat) (parent : Option Nat) : PNode K V → PNode K V
  | .mk fields children =>
    (PNode.mk
      { id := right, parent := parent, isLeaf := fields.isLeaf, firstKey := none,
        next := if fields.isLeaf then fields.next else none, separators := [],
        entries := fields.entries.drop t }
      ((children.drop t).map (setParent (some right)))).refresh

def splitChild (t : Nat) (node : PNode K V) (index right : Nat) : Option (PNode K V) := do
  let child ← node.children[index]?
  return (PNode.mk node.fields ((node.children.set index (splitLeft t right child)).insertIdx
    (index + 1) (splitRight t right (some node.fields.id) child))).refresh

/-- Where the new link goes: before a link, or before the first entry of a leaf. -/
inductive Hint
  | link (l : Nat)
  | leaf (next : Option Nat)

def hintAt (next : Option Nat) : Option (Entry K V) → Hint
  | some e => .link e.link
  | none => .leaf next

def poolTake : List Nat → Option (Nat × List Nat)
  | [] => none
  | node :: pool => some (node, pool)

/-- A child put back by the walk up the parent pointers, which must lead to the node. -/
def putBack (node : PNode K V) (index : Nat) (child : PNode K V) : Option (PNode K V) :=
  if child.fields.parent = some node.fields.id then
    some (.mk node.fields (node.children.set index child))
  else none

def insertInto (cmp : K → K → Ordering) (t : Nat) (entry : Entry K V) :
    Nat → PNode K V → List Nat → Option (PNode K V × List Nat × Hint)
  | 0, _, _ => none
  | fuel + 1, .mk fields children, pool =>
    if fields.isLeaf then
      let index := lowerBound Entry.key cmp fields.entries entry.key
      some ((PNode.mk { fields with entries := fields.entries.insertIdx index entry }
        children).refresh, pool, hintAt fields.next fields.entries[index]?)
    else do
      let index ← childIndex cmp entry.key fields.separators
      let child ← children[index]?
      if child.numKeys = 2 * t - 1 then
        let (right, pool) ← poolTake pool
        let node ← splitChild t (.mk fields children) index right
        let separator ← node.fields.separators[index]?.join
        let index := if cmp entry.key separator ≠ .lt then index + 1 else index
        let child ← node.children[index]?
        let (child, pool, hint) ← insertInto cmp t entry fuel child pool
        return ((← putBack node index child).refresh, pool, hint)
      else
        let (child, pool, hint) ← insertInto cmp t entry fuel child pool
        return ((← putBack (.mk fields children) index child).refresh, pool, hint)

def leafNamed (root : PNode K V) (id : Nat) : Option (Leaf K V) :=
  root.leaves.find? fun leaf => leaf.id == id

def nextLink (root : PNode K V) : Hint → Option (Option Nat)
  | .link l => some (some l)
  | .leaf none => some none
  | .leaf (some id) => do
      let leaf ← leafNamed root id
      return leaf.entries.head?.map Entry.link

def insertPrepared (cmp : K → K → Ordering) (t : Nat) (pool : List Nat) (root : Option (PNode K V))
    (entry : Entry K V) : Option (PNode K V × List Nat × Option Nat) :=
  match root with
  | none => do
      let (id, pool) ← poolTake pool
      return ((PNode.mk ⟨id, none, true, none, none, [], [entry]⟩ []).refresh, pool, none)
  | some root => do
      let (root, pool) ← if root.numKeys = 2 * t - 1 then do
          let (id, pool) ← poolTake pool
          let (right, pool) ← poolTake pool
          let root ← splitChild t
            (.mk ⟨id, none, false, none, none, [], []⟩ [root.setParent (some id)]) 0 right
          pure (root, pool)
        else some (root, pool)
      let (root, pool, hint) ← insertInto cmp t entry root.levels root pool
      return (root, pool, ← nextLink root hint)

/-- The last entry or child of the left neighbour moves to the front of a node. -/
def borrowLeft : PNode K V → PNode K V → PNode K V × PNode K V
  | .mk left lefts, .mk fields children =>
    ((PNode.mk { left with entries := left.entries.dropLast } lefts.dropLast).refresh,
      (PNode.mk { fields with entries := left.entries.getLast?.toList ++ fields.entries }
        (lefts.getLast?.toList.map (setParent (some fields.id)) ++ children)).refresh)

/-- The first entry or child of the right neighbour moves to the end of a node. -/
def borrowRight : PNode K V → PNode K V → PNode K V × PNode K V
  | .mk fields children, .mk right rights =>
    ((PNode.mk { fields with entries := fields.entries ++ right.entries.head?.toList }
        (children ++ rights.head?.toList.map (setParent (some fields.id)))).refresh,
      (PNode.mk { right with entries := right.entries.tail } rights.tail).refresh)

def merge : PNode K V → PNode K V → PNode K V
  | .mk left lefts, .mk right rights =>
    (PNode.mk
      { left with
        entries := left.entries ++ right.entries
        next := if left.isLeaf then right.next else left.next }
      (lefts ++ rights.map (setParent (some left.id)))).refresh

def spare (t : Nat) : Option (PNode K V) → Option (PNode K V)
  | none => none
  | some node => if node.numKeys > t - 1 then some node else none

/-- One round of `bplus_rebalance_after_remove` for a child with too few keys. -/
def rebalance (t : Nat) (node : PNode K V) (index : Nat) : Option (PNode K V) := do
  let child ← node.children[index]?
  let left := if 0 < index then node.children[index - 1]? else none
  let right := node.children[index + 1]?
  let children ← match spare t left, spare t right, left with
    | some l, _, _ =>
      let (l, child) := borrowLeft l child
      some ((node.children.set index child).set (index - 1) l)
    | none, some r, _ =>
      let (child, r) := borrowRight child r
      some ((node.children.set index child).set (index + 1) r)
    | none, none, some l => some ((node.children.set (index - 1) (merge l child)).eraseIdx index)
    | none, none, none =>
      right.map fun r => (node.children.set index (merge child r)).eraseIdx (index + 1)
  return (PNode.mk node.fields children).refresh

/-- The removal of a key that is there, and the rebalancing walk back to the root. -/
def removeFrom (cmp : K → K → Ordering) (t : Nat) : Nat → PNode K V → K →
    Option (PNode K V × Entry K V)
  | 0, _, _ => none
  | fuel + 1, .mk fields children, key =>
    if fields.isLeaf then do
      let index := lowerBound Entry.key cmp fields.entries key
      let removed ← fields.entries[index]?
      return ((PNode.mk { fields with entries := fields.entries.eraseIdx index }
        children).refresh, removed)
    else do
      let index ← childIndex cmp key fields.separators
      let child ← children[index]?
      let (child, removed) ← removeFrom cmp t fuel child key
      let node ← putBack (.mk fields children) index child
      if child.numKeys < t - 1 then
        return (← rebalance t node index, removed)
      return (node.refresh, removed)

def remove (cmp : K → K → Ordering) (t : Nat) (root : PNode K V) (key : K) :
    Option (Option (PNode K V) × Entry K V) := do
  let (root, removed) ← removeFrom cmp t root.levels root key
  if root.numKeys = 0 then
    if root.fields.isLeaf then return (none, removed)
    let child ← root.children[0]?
    return (some (child.setParent none).refresh, removed)
  return (some root, removed)

def bplusTree (cmp : K → K → Ordering) (t : Nat) : TreeKind K V (PNode K V) where
  levels := levels
  modify f root key := modify cmp f root.levels root key
  insert := insertPrepared cmp t
  delete := remove cmp t

/-! ### The invariant of a node -/

open PNode

variable {K V : Type} {t h : Nat}

section Chain

def headOr : List (Leaf K V) → Option Nat → Option Nat
  | [], z => z
  | l :: _, _ => some l.id

def Linked : List (Leaf K V) → Option Nat → Prop
  | [], _ => True
  | l :: L, z => l.next = headOr L z ∧ Linked L z

theorem headOr_append (A B : List (Leaf K V)) (z : Option Nat) :
    headOr (A ++ B) z = headOr A (headOr B z) := by
  cases A <;> rfl

theorem linked_append {A B : List (Leaf K V)} {z : Option Nat} :
    Linked (A ++ B) z ↔ Linked A (headOr B z) ∧ Linked B z := by
  induction A with
  | nil => simp [Linked]
  | cons a A ih => simp only [List.cons_append, Linked, headOr_append, ih, and_assoc]

def Evolves (L L' : List (Leaf K V)) : Prop :=
  (∀ z, headOr L' z = headOr L z) ∧ ∀ z, Linked L z → Linked L' z

variable {L L' : List (Leaf K V)}

theorem Evolves.rfl : Evolves L L := ⟨fun _ => .refl _,fun _ => id⟩

theorem Evolves.trans {L'' : List (Leaf K V)} (h : Evolves L L') (h' : Evolves L' L'') :
    Evolves L L'' :=
  ⟨fun z => (h'.1 z).trans (h.1 z),fun z hz => h'.2 z (h.2 z hz)⟩

theorem Evolves.context (h : Evolves L L') (A B : List (Leaf K V)) :
    Evolves (A ++ (L ++ B)) (A ++ (L' ++ B)) := by
  constructor
  · simp [headOr_append, h.1]
  · intro z hz
    simp only [linked_append, headOr_append, h.1] at hz ⊢
    exact ⟨hz.1,h.2 _ hz.2.1,hz.2.2⟩

end Chain

section Lists

@[simp] theorem fields_mk (f : Fields K V) (cs : List (PNode K V)) : (mk f cs).fields = f := rfl

@[simp] theorem children_mk (f : Fields K V) (cs : List (PNode K V)) :
    (mk f cs).children = cs := rfl

@[simp] theorem leavesOf_append (P Q : List (PNode K V)) :
    leavesOf (P ++ Q) = leavesOf P ++ leavesOf Q := by
  induction P with
  | nil => simp
  | cons p P ih => simp [ih]

@[simp] theorem idsOf_append (P Q : List (PNode K V)) : idsOf (P ++ Q) = idsOf P ++ idsOf Q := by
  induction P with
  | nil => simp
  | cons p P ih => simp [ih]

@[simp] theorem leavesOf_setParent (p : Option Nat) (P : List (PNode K V)) :
    leavesOf (P.map (setParent p)) = leavesOf P := by
  induction P with
  | nil => rfl
  | cons n P ih => simp [ih]

@[simp] theorem idsOf_setParent (p : Option Nat) (P : List (PNode K V)) :
    idsOf (P.map (setParent p)) = idsOf P := by
  induction P with
  | nil => rfl
  | cons n P ih => simp [ih]

section

variable (n : PNode K V)

@[simp] theorem leaves_refresh : leaves n.refresh = leaves n := by
  obtain ⟨f,cs⟩ := n
  rw [refresh]
  split <;> simp_all [leaves]

@[simp] theorem ids_refresh : ids n.refresh = ids n := by
  obtain ⟨f,cs⟩ := n
  rw [refresh]
  split <;> rfl

@[simp] theorem numKeys_refresh : numKeys n.refresh = numKeys n := by
  obtain ⟨f,cs⟩ := n
  rw [refresh]
  split <;> rfl

@[simp] theorem parent_refresh : n.refresh.fields.parent = n.fields.parent := by
  obtain ⟨f,cs⟩ := n
  rw [refresh]
  split <;> rfl

@[simp] theorem id_refresh : n.refresh.fields.id = n.fields.id := by
  obtain ⟨f,cs⟩ := n
  rw [refresh]
  split <;> rfl

end

@[simp] theorem numKeys_setParent (p : Option Nat) (n : PNode K V) :
    numKeys (n.setParent p) = numKeys n := by
  obtain ⟨f,cs⟩ := n
  simp [setParent, numKeys]

def flatOf (P : List (PNode K V)) : List (Entry K V) := (leavesOf P).flatMap Leaf.entries

@[simp] theorem flatOf_append (P Q : List (PNode K V)) :
    flatOf (P ++ Q) = flatOf P ++ flatOf Q := by
  simp [flatOf]

@[simp] theorem flatOf_cons (p : PNode K V) (P : List (PNode K V)) :
    flatOf (p :: P) = flat p ++ flatOf P := by
  simp [flatOf, flat]

@[simp] theorem flatOf_nil : flatOf ([] : List (PNode K V)) = [] := by
  simp [flatOf]

end Lists

variable {c n l : PNode K V}

section Shape

def minKey (n : PNode K V) : Option K := n.flat.head?.map Entry.key

/-- All leaves below the node are `h` levels down; the first key of a node is the smallest below it
and its separators are the smallest keys below its children; every node below points to its
parent and has between `t - 1` and `2 t - 1` keys. -/
def WF (t : Nat) : Nat → PNode K V → Prop
  | 0, n => n.fields.isLeaf = true ∧ n.children = [] ∧ n.firstKey = minKey n
  | h + 1, n =>
    n.fields.isLeaf = false ∧ n.fields.entries = [] ∧ n.children ≠ [] ∧ n.firstKey = minKey n ∧
      n.fields.separators = n.children.tail.map minKey ∧
      ∀ c ∈ n.children, WF t h c ∧ c.fields.parent = some n.fields.id ∧
        t - 1 ≤ c.numKeys ∧ c.numKeys ≤ 2 * t - 1

structure Child (t h id : Nat) (c : PNode K V) : Prop where
  wf : WF t h c
  parent : c.fields.parent = some id
  low : t - 1 ≤ c.numKeys
  high : c.numKeys ≤ 2 * t - 1

structure Ready (t h : Nat) (f : Fields K V) (cs : List (PNode K V)) : Prop where
  isLeaf : f.isLeaf = (h == 0)
  leaf : h = 0 → cs = []
  inner : h ≠ 0 → f.entries = [] ∧ cs ≠ []
  children : ∀ c ∈ cs, Child t (h - 1) f.id c

variable {f : Fields K V} {cs : List (PNode K V)} {n : PNode K V}

theorem WF.ready (hwf : WF t h (.mk f cs)) : Ready t h f cs := by
  cases h with
  | zero => exact ⟨hwf.1,fun _ => hwf.2.1,fun h => absurd rfl h,fun c hc => by
      rw [show cs = [] from hwf.2.1] at hc
      cases hc⟩
  | succ h =>
    exact ⟨hwf.1,nofun,fun _ => ⟨hwf.2.1,hwf.2.2.1⟩,fun c hc =>
      have hc := hwf.2.2.2.2.2 c hc
      ⟨hc.1,hc.2.1,hc.2.2.1,hc.2.2.2⟩⟩

theorem WF.firstKey_eq (hwf : WF t h n) : n.firstKey = minKey n := by
  cases h with
  | zero => exact hwf.2.2
  | succ h => exact hwf.2.2.2.1

theorem Ready.leaves_eq (hr : Ready t (h + 1) f cs) : leaves (.mk f cs) = leavesOf cs := by
  rw [leaves, hr.isLeaf]
  rfl

theorem Ready.flat_eq (hr : Ready t (h + 1) f cs) : flat (.mk f cs) = flatOf cs := by
  rw [flat, hr.leaves_eq, flatOf]

theorem Ready.numKeys_inner (hr : Ready t (h + 1) f cs) : numKeys (.mk f cs) = cs.length - 1 := by
  rw [numKeys, hr.isLeaf]
  rfl

theorem Ready.numKeys_leaf (hr : Ready t 0 f cs) : numKeys (.mk f cs) = f.entries.length := by
  rw [numKeys, hr.isLeaf]
  rfl

theorem Ready.shape (hr : Ready t h f cs) :
    (h = 0 ∧ cs.length = 0) ∨ (h ≠ 0 ∧ f.entries.length = 0 ∧ 0 < cs.length) := by
  by_cases hz : h = 0
  · exact .inl ⟨hz,by rw [hr.leaf hz]; rfl⟩
  · obtain ⟨hes,hne⟩ := hr.inner hz
    exact .inr ⟨hz,by rw [hes]; rfl,List.length_pos_iff.2 hne⟩

theorem Ready.numKeys_eq (hr : Ready t h f cs) :
    numKeys (.mk f cs) = f.entries.length + (cs.length - 1) := by
  have hshape := hr.shape
  cases h with
  | zero =>
    rw [hr.numKeys_leaf]
    omega
  | succ h =>
    rw [hr.numKeys_inner]
    omega

theorem Ready.flat_leaf (hr : Ready t 0 f cs) : flat (.mk f cs) = f.entries := by
  rw [flat, leaves, hr.isLeaf]
  simp

theorem Ready.leaves_leaf (hr : Ready t 0 f cs) :
    leaves (.mk f cs) = [⟨f.id, f.next, f.entries⟩] := by
  rw [leaves, hr.isLeaf]
  rfl

theorem flat_ne_nil (ht : 2 ≤ t) (hwf : WF t h n) (hn : 1 ≤ n.numKeys ∨ h ≠ 0) : flat n ≠ [] := by
  induction h generalizing n with
  | zero =>
    obtain ⟨f,cs⟩ := n
    have hr := hwf.ready
    rw [hr.flat_leaf]
    rw [hr.numKeys_leaf] at hn
    exact List.length_pos_iff.1 (hn.resolve_right (by simp))
  | succ h ih =>
    obtain ⟨f,cs⟩ := n
    have hr := hwf.ready
    obtain ⟨c,cs,rfl⟩ := List.exists_cons_of_ne_nil (hr.inner (by simp)).2
    have hc := hr.children c mem_cons_self
    have hlow := hc.low
    rw [hr.flat_eq, flatOf_cons]
    exact List.append_ne_nil_of_left_ne_nil (ih hc.wf (.inl (by omega))) _

theorem two_pow_le_flat (ht : 2 ≤ t) (hwf : WF t h n) (hpos : 1 ≤ n.numKeys) :
    2 ^ h ≤ n.flat.length := by
  induction h generalizing n with
  | zero =>
    obtain ⟨f,cs⟩ := n
    rw [hwf.ready.flat_leaf, ← hwf.ready.numKeys_leaf]
    exact hpos
  | succ h ih =>
    obtain ⟨f,cs⟩ := n
    have hr := hwf.ready
    rw [hr.numKeys_inner] at hpos
    have hchild : ∀ c ∈ cs, 2 ^ h ≤ c.flat.length := fun c hc =>
      ih (hr.children c hc).wf (by have := (hr.children c hc).low; omega)
    obtain ⟨c,cs,rfl⟩ := List.exists_cons_of_length_pos (l := cs) (by omega)
    obtain ⟨d,cs,rfl⟩ := List.exists_cons_of_length_pos (l := cs) hpos
    have hc := hchild c (by simp)
    have hd := hchild d (by simp)
    rw [hr.flat_eq, flatOf_cons, flatOf_cons, length_append, length_append, Nat.pow_succ]
    omega

theorem Child.flat_ne_nil (ht : 2 ≤ t) {id : Nat} (hc : Child t h id c) : flat c ≠ [] :=
  BPlus.flat_ne_nil ht hc.wf (.inl (by have := hc.low; omega))

theorem Ready.refresh (ht : 2 ≤ t) (hr : Ready t h f cs) : WF t h (PNode.mk f cs).refresh := by
  cases h with
  | zero =>
    have hleaf := hr.isLeaf
    have hflat := hr.flat_leaf
    refine ⟨?_,?_,?_⟩
    · simp [PNode.refresh, hleaf]
    · simp [PNode.refresh, hleaf, hr.leaf rfl]
    · rw [minKey, flat, leaves_refresh, ← flat, hflat]
      simp [PNode.refresh, hleaf, firstKey]
  | succ h =>
    have hinner := hr.isLeaf
    have hflat := hr.flat_eq
    obtain ⟨c,cs,rfl⟩ := List.exists_cons_of_ne_nil (hr.inner (by simp)).2
    have hchild := hr.children
    refine ⟨?_,?_,?_,?_,?_,?_⟩
    · simp [PNode.refresh, hinner]
    · simp only [PNode.refresh, hinner]
      exact (hr.inner (by simp)).1
    · simp [PNode.refresh, hinner]
    · rw [minKey, flat, leaves_refresh, ← flat, hflat, flatOf_cons,
        List.head?_append_of_ne_nil _ ((hchild c mem_cons_self).flat_ne_nil ht)]
      simp only [PNode.refresh, hinner]
      exact (hchild c mem_cons_self).wf.firstKey_eq
    · simp only [PNode.refresh, hinner]
      exact List.map_congr_left fun x hx =>
        (hchild x (List.mem_cons_of_mem c hx)).wf.firstKey_eq
    · simp only [PNode.refresh, hinner]
      intro x hx
      have hx := hchild x hx
      exact ⟨hx.wf,hx.parent,hx.low,hx.high⟩

theorem Ready.child (ht : 2 ≤ t) {id : Nat}
    (hr : Ready t h f cs) (hp : f.parent = some id) (hlow : t - 1 ≤ numKeys (.mk f cs))
    (hhigh : numKeys (.mk f cs) ≤ 2 * t - 1) : Child t h id (PNode.mk f cs).refresh :=
  ⟨hr.refresh ht,by simpa using hp,by simpa using hlow,by simpa using hhigh⟩

theorem levels_eq (hwf : WF t h n) : n.levels = h + 1 := by
  induction h generalizing n with
  | zero =>
    obtain ⟨f,cs⟩ := n
    rw [show cs = [] from hwf.2.1, levels]
  | succ h ih =>
    obtain ⟨f,cs⟩ := n
    have hr := hwf.ready
    obtain ⟨c,cs,rfl⟩ := List.exists_cons_of_ne_nil (hr.inner (by simp)).2
    rw [levels, hr.isLeaf, ih (hr.children c mem_cons_self).wf]
    rfl

end Shape

/-! ### Splitting, borrowing and merging -/

open PNode

variable {K V : Type} {t h id : Nat}

/-- Neighbours in the place of others: their leaves fit into the same chain, and no name occurs more
often but for `new` ones. -/
structure Keeps (new : List Nat) (W W' : List (PNode K V)) : Prop where
  chain : Evolves (leavesOf W) (leavesOf W')
  ids : ∀ i, (idsOf W').count i ≤ (idsOf W).count i + new.count i

structure Moves (new : List Nat) (W W' : List (PNode K V)) : Prop extends Keeps new W W' where
  flat : flatOf W' = flatOf W

variable {W W' cs : List (PNode K V)}

theorem Keeps.context {new : List Nat} (hm : Keeps new W W')
    (P Q : List (PNode K V)) : Keeps new (P ++ (W ++ Q)) (P ++ (W' ++ Q)) := by
  refine ⟨?_,fun i => ?_⟩
  · simpa only [leavesOf_append] using hm.chain.context (leavesOf P) (leavesOf Q)
  · have := hm.ids i
    simp only [idsOf_append, count_append]
    omega

theorem Keeps.trans {new new' : List Nat} {W W' W'' : List (PNode K V)} (hm : Keeps new W W')
    (hm' : Keeps new' W' W'') : Keeps (new ++ new') W W'' := by
  refine ⟨hm.chain.trans hm'.chain,fun i => ?_⟩
  have h1 := hm.ids i
  have h2 := hm'.ids i
  rw [count_append]
  omega

theorem wf_setParent (hwf : WF t h n) (p : Option Nat) : WF t h (n.setParent p) := by
  have hmin : minKey (n.setParent p) = minKey n := by rw [minKey, flat, leaves_setParent]; rfl
  obtain ⟨f,cs⟩ := n
  cases h with
  | zero => exact ⟨hwf.1,hwf.2.1,hwf.2.2.trans hmin.symm⟩
  | succ h => exact ⟨hwf.1,hwf.2.1,hwf.2.2.1,hwf.2.2.2.1.trans hmin.symm,hwf.2.2.2.2⟩

theorem Child.adopt (hc : Child t h id c) (j : Nat) : Child t h j (c.setParent (some j)) := by
  refine ⟨wf_setParent hc.wf _,?_,?_,?_⟩
  · obtain ⟨f,cs⟩ := c
    rfl
  · simpa using hc.low
  · simpa using hc.high

theorem children_adopt (hcs : ∀ c ∈ cs, Child t h id c) (j : Nat) :
    ∀ c ∈ cs.map (setParent (some j)), Child t h j c := by
  intro c hc
  obtain ⟨c,hmem,rfl⟩ := List.mem_map.1 hc
  exact (hcs c hmem).adopt j

theorem split_spec (ht : 2 ≤ t) (hwf : WF t h n) (hp : n.fields.parent = some id)
    (hfull : n.numKeys = 2 * t - 1) (j : Nat) :
    Child t h id (splitLeft t j n) ∧ Child t h id (splitRight t j (some id) n) ∧
      (splitLeft t j n).numKeys < 2 * t - 1 ∧ (splitRight t j (some id) n).numKeys < 2 * t - 1 ∧
      (splitLeft t j n).fields.id = n.fields.id ∧
      Moves [j] [n] [splitLeft t j n, splitRight t j (some id) n] := by
  obtain ⟨f,cs⟩ := n
  have hr := hwf.ready
  have hshape := hr.shape
  rw [hr.numKeys_eq] at hfull
  simp only [splitLeft, splitRight]
  have hl : Ready t h
      { f with entries := f.entries.take t, next := if f.isLeaf then some j else f.next }
      (cs.take t) := by
    refine ⟨hr.isLeaf,fun hz => by simp [hr.leaf hz],fun hz => ?_,
      fun c hc => hr.children c (List.mem_of_mem_take hc)⟩
    refine ⟨by simp [(hr.inner hz).1],List.ne_nil_of_length_pos ?_⟩
    rw [List.length_take]
    omega
  have hrt : Ready t h
      ⟨j,some id,f.isLeaf,none,if f.isLeaf then f.next else none,[],f.entries.drop t⟩
      ((cs.drop t).map (setParent (some j))) := by
    refine ⟨hr.isLeaf,fun hz => by simp [hr.leaf hz],fun hz => ?_,
      children_adopt (fun c hc => hr.children c (List.mem_of_mem_drop hc)) j⟩
    refine ⟨by simp [(hr.inner hz).1],List.ne_nil_of_length_pos ?_⟩
    rw [length_map, List.length_drop]
    omega
  have hnl := hl.numKeys_eq
  have hnr := hrt.numKeys_eq
  simp only [List.length_take, List.length_drop, length_map] at hnl hnr
  have hids : idsOf (cs.take t) ++ idsOf (cs.drop t) = idsOf cs := by
    rw [← idsOf_append, List.take_append_drop]
  refine ⟨hl.child ht hp (by omega) (by omega),hrt.child ht rfl (by omega) (by omega),
    by rw [numKeys_refresh]; omega,by rw [numKeys_refresh]; omega,by simp,⟨⟨?_,fun i => ?_⟩,?_⟩⟩
  · cases h with
    | zero =>
      refine ⟨?_,fun z => ?_⟩
      · simp [hr.leaves_leaf, hl.leaves_leaf, headOr]
      · simp only [leavesOf_cons, leavesOf_nil, leaves_refresh, hr.leaves_leaf, hl.leaves_leaf,
          hrt.leaves_leaf]
        simp [Linked, headOr, hr.isLeaf]
    | succ h =>
      simp only [leavesOf_cons, leavesOf_nil, leaves_refresh, hr.leaves_eq, hl.leaves_eq,
        hrt.leaves_eq, leavesOf_setParent, append_nil]
      rw [← leavesOf_append, List.take_append_drop]
      exact Evolves.rfl
  · simp only [idsOf_cons, idsOf_nil, ids_refresh, ids, idsOf_setParent, ← hids,
      count_append, count_cons, List.count_nil]
    omega
  · cases h with
    | zero =>
      simp only [flatOf, leavesOf_cons, leavesOf_nil, leaves_refresh, hr.leaves_leaf,
        hl.leaves_leaf, hrt.leaves_leaf]
      simp
    | succ h =>
      simp only [flatOf, leavesOf_cons, leavesOf_nil, leaves_refresh, hr.leaves_eq, hl.leaves_eq,
        hrt.leaves_eq, leavesOf_setParent, append_nil]
      rw [← leavesOf_append, List.take_append_drop]

structure Lent (t h id : Nat) (l c l' c' : PNode K V) : Prop where
  left : Child t h id l'
  right : Child t h id c'
  moves : Moves [] [l, c] [l', c']

/-- Neighbours that keep their names and places in the chain and share the same entries and
children between them. -/
theorem lent_of (ht : 2 ≤ t) {f g f' g' : Fields K V} {cs ds cs' ds' : List (PNode K V)}
    (hf : Ready t h f cs) (hg : Ready t h g ds) (hf' : Ready t h f' cs') (hg' : Ready t h g' ds')
    (hfid : f'.id = f.id ∧ f'.next = f.next ∧ f'.parent = some id)
    (hgid : g'.id = g.id ∧ g'.next = g.next ∧ g'.parent = some id)
    {m k : Nat} (hm : numKeys (.mk f' cs') = m) (hk : numKeys (.mk g' ds') = k)
    (hfnum : t - 1 ≤ m ∧ m ≤ 2 * t - 1) (hgnum : t - 1 ≤ k ∧ k ≤ 2 * t - 1)
    (hes : f'.entries ++ g'.entries = f.entries ++ g.entries)
    (hsame : leavesOf (cs' ++ ds') = leavesOf (cs ++ ds) ∧ idsOf (cs' ++ ds') = idsOf (cs ++ ds)) :
    Lent t h id (.mk f cs) (.mk g ds) (PNode.mk f' cs').refresh (PNode.mk g' ds').refresh := by
  obtain ⟨hleaves,hids⟩ := hsame
  rw [leavesOf_append, leavesOf_append] at hleaves
  subst hm hk
  refine ⟨hf'.child ht hfid.2.2 hfnum.1 hfnum.2,hg'.child ht hgid.2.2 hgnum.1 hgnum.2,?_⟩
  have hcount : ∀ i, (idsOf [(PNode.mk f' cs').refresh, (PNode.mk g' ds').refresh]).count i ≤
      (idsOf [.mk f cs, .mk g ds]).count i+([]).count i := by
    intro i
    have := congrArg (List.count i) hids
    simp only [idsOf_cons, ids_refresh, ids, idsOf_append, count_append, count_cons,
      hfid.1, hgid.1] at this ⊢
    omega
  cases h with
  | zero =>
    refine ⟨⟨⟨fun z => ?_,fun z hz => ?_⟩,hcount⟩,?_⟩
    · simp [hf.leaves_leaf, hf'.leaves_leaf, headOr, hfid.1]
    · simp only [leavesOf_cons, leaves_refresh, hf.leaves_leaf, hg.leaves_leaf, hf'.leaves_leaf,
        hg'.leaves_leaf, hgid.1, hfid.2.1, hgid.2.1] at hz ⊢
      exact hz
    · simpa [flatOf, hf.leaves_leaf, hg.leaves_leaf, hf'.leaves_leaf, hg'.leaves_leaf] using hes
  | succ h =>
    refine ⟨⟨?_,hcount⟩,?_⟩
    · simp only [leavesOf_cons, leavesOf_nil, leaves_refresh, hf.leaves_eq, hg.leaves_eq,
        hf'.leaves_eq, hg'.leaves_eq, append_nil, hleaves]
      exact Evolves.rfl
    · simp [flatOf, hf.leaves_eq, hg.leaves_eq, hf'.leaves_eq, hg'.leaves_eq, hleaves]

variable {α : Type}

theorem dropLast_append_last (l r : List α) : l.dropLast ++ (l.getLast?.toList ++ r) = l ++ r := by
  rcases List.eq_nil_or_concat l with rfl | ⟨X,x,rfl⟩
  · rfl
  · simp

theorem append_head_tail (l r : List α) : l ++ r.head?.toList ++ r.tail = l ++ r := by
  cases r <;> simp

theorem length_last (l : List α) : l.getLast?.toList.length = min 1 l.length := by
  rcases List.eq_nil_or_concat l with rfl | ⟨X,x,rfl⟩
  · rfl
  · simp

theorem length_head (l : List α) : l.head?.toList.length = min 1 l.length := by
  cases l <;> simp

theorem borrowLeft_spec (ht : 2 ≤ t) (hl : Child t h id l) (hc : WF t h c)
    (hp : c.fields.parent = some id) (hspare : t ≤ l.numKeys) (hlow : t ≤ c.numKeys + 2)
    (hhigh : c.numKeys < t - 1) : Lent t h id l c (borrowLeft l c).1 (borrowLeft l c).2 := by
  obtain ⟨fl,ls⟩ := l
  obtain ⟨f,cs⟩ := c
  have hrl := hl.wf.ready
  have hr := hc.ready
  have hmax := hl.high
  rw [hrl.numKeys_eq] at hspare hmax
  rw [hr.numKeys_eq] at hlow hhigh
  have hshapel := hrl.shape
  have hshape := hr.shape
  have h1 : Ready t h { fl with entries := fl.entries.dropLast } ls.dropLast := by
    refine ⟨hrl.isLeaf,fun hz => by simp [hrl.leaf hz],fun hz => ?_,
      fun c hc => hrl.children c (List.dropLast_subset ls hc)⟩
    refine ⟨by simp [(hrl.inner hz).1],List.ne_nil_of_length_pos ?_⟩
    rw [List.length_dropLast]
    omega
  have h2 : Ready t h { f with entries := fl.entries.getLast?.toList ++ f.entries }
      (ls.getLast?.toList.map (setParent (some f.id)) ++ cs) := by
    refine ⟨hr.isLeaf,fun hz => by simp [hrl.leaf hz, hr.leaf hz],
      fun hz => by simp [hrl.inner hz, hr.inner hz],fun c hc => ?_⟩
    rcases mem_append.1 hc with hc | hc
    · have hlast : ∀ c ∈ ls.getLast?.toList, Child t (h - 1) fl.id c := fun c hc =>
        hrl.children c (List.mem_of_getLast? (Option.mem_toList.1 hc))
      exact children_adopt hlast f.id c hc
    · exact hr.children c hc
  refine lent_of ht hrl hr h1 h2 ⟨rfl,rfl,hl.parent⟩ ⟨rfl,rfl,hp⟩ h1.numKeys_eq h2.numKeys_eq ?_ ?_
    (dropLast_append_last _ _) ?_
  · simp only [List.length_dropLast]
    omega
  · simp only [length_append, length_map, length_last]
    omega
  · rw [← dropLast_append_last ls cs]
    simp

theorem borrowRight_spec (ht : 2 ≤ t) {c r : PNode K V} (hc : WF t h c) (hrt : Child t h id r)
    (hp : c.fields.parent = some id) (hspare : t ≤ r.numKeys) (hlow : t ≤ c.numKeys + 2)
    (hhigh : c.numKeys < t - 1) : Lent t h id c r (borrowRight c r).1 (borrowRight c r).2 := by
  obtain ⟨f,cs⟩ := c
  obtain ⟨fr,rs⟩ := r
  have hrr := hrt.wf.ready
  have hr := hc.ready
  have hmax := hrt.high
  rw [hrr.numKeys_eq] at hspare hmax
  rw [hr.numKeys_eq] at hlow hhigh
  have hshaper := hrr.shape
  have hshape := hr.shape
  have h1 : Ready t h { f with entries := f.entries ++ fr.entries.head?.toList }
      (cs ++ rs.head?.toList.map (setParent (some f.id))) := by
    refine ⟨hr.isLeaf,fun hz => by simp [hrr.leaf hz, hr.leaf hz],
      fun hz => by simp [hrr.inner hz, hr.inner hz],fun c hc => ?_⟩
    rcases mem_append.1 hc with hc | hc
    · exact hr.children c hc
    · have hhead : ∀ c ∈ rs.head?.toList, Child t (h - 1) fr.id c := fun c hc =>
        hrr.children c (List.mem_of_mem_head? (Option.mem_toList.1 hc))
      exact children_adopt hhead f.id c hc
  have h2 : Ready t h { fr with entries := fr.entries.tail } rs.tail := by
    refine ⟨hrr.isLeaf,fun hz => by simp [hrr.leaf hz],fun hz => ?_,
      fun c hc => hrr.children c (List.mem_of_mem_tail hc)⟩
    refine ⟨by simp [(hrr.inner hz).1],List.ne_nil_of_length_pos ?_⟩
    rw [List.length_tail]
    omega
  refine lent_of ht hr hrr h1 h2 ⟨rfl,rfl,hp⟩ ⟨rfl,rfl,hrt.parent⟩ h1.numKeys_eq h2.numKeys_eq ?_ ?_
    (append_head_tail _ _) ?_
  · simp only [length_append, length_map, length_head]
    omega
  · simp only [List.length_tail]
    omega
  · rw [← append_head_tail cs rs]
    simp

theorem merge_spec (ht : 2 ≤ t) (hl : WF t h l) (hc : WF t h c) (hp : l.fields.parent = some id)
    (hlow : t - 1 ≤ l.numKeys + c.numKeys) (hhigh : l.numKeys + c.numKeys + 1 ≤ 2 * t - 1) :
    Child t h id (merge l c) ∧ Moves [] [l, c] [merge l c] := by
  obtain ⟨fl,ls⟩ := l
  obtain ⟨f,cs⟩ := c
  have hrl := hl.ready
  have hr := hc.ready
  have hshapel := hrl.shape
  have hshape := hr.shape
  rw [hrl.numKeys_eq, hr.numKeys_eq] at hlow hhigh
  simp only [merge]
  have h1 : Ready t h
      { fl with
        entries := fl.entries ++ f.entries
        next := if fl.isLeaf then f.next else fl.next }
      (ls ++ cs.map (setParent (some fl.id))) := by
    refine ⟨hrl.isLeaf,fun hz => by simp [hrl.leaf hz, hr.leaf hz],
      fun hz => by simp [hrl.inner hz, hr.inner hz],fun c hc => ?_⟩
    rcases mem_append.1 hc with hc | hc
    · exact hrl.children c hc
    · exact children_adopt hr.children fl.id c hc
  have hnum := h1.numKeys_eq
  simp only [length_append, length_map] at hnum
  refine ⟨h1.child ht hp (by omega) (by omega),⟨?_,fun i => ?_⟩,?_⟩
  · cases h with
    | zero =>
      refine ⟨fun z => ?_,fun z hz => ?_⟩
      · simp only [leavesOf_cons, leaves_refresh, hrl.leaves_leaf, h1.leaves_leaf]
        rfl
      · simp only [leavesOf_cons, leaves_refresh, hrl.leaves_leaf, hr.leaves_leaf,
          hrl.isLeaf] at hz ⊢
        exact ⟨hz.2.1,trivial⟩
    | succ h =>
      simp only [leavesOf_cons, leavesOf_nil, leaves_refresh, hrl.leaves_eq, hr.leaves_eq,
        h1.leaves_eq, leavesOf_append, leavesOf_setParent, append_nil]
      exact Evolves.rfl
  · simp only [idsOf_cons, ids_refresh, ids, idsOf_append, idsOf_setParent, count_append,
      count_cons]
    omega
  · cases h with
    | zero => simp [flatOf, hrl.leaves_leaf, hr.leaves_leaf, h1.leaves_leaf]
    | succ h => simp [flatOf, hrl.leaves_eq, hr.leaves_eq, h1.leaves_eq]

end Salts.Cstl.BPlus
