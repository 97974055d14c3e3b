import Salts.CstlBasic
import Salts.EntryChain
import Salts.SortedMap

/-!
What `btree.c` and `bplus_tree.c` have in common: the entries with their range links, the two-phase
`put` that allocates everything before it changes anything, `remove`, `clear` and the ranges.  A
kind of tree brings the operations on its nodes.
-/

namespace Salts.Cstl

/-- A key and a value with the link of the range list.  An allocated object is named by the serial
number of its allocation. -/
structure Entry (K V : Type) where
  key : K
  value : V
  link : Nat

/-- What one call meets outside the tree: the results of copying its key and its value, and
whether the allocations of the link and of the node pool succeed. -/
structure TreeEnv where
  copyKey : StlStatus
  copyValue : StlStatus
  link : Bool
  pool : Bool

/-- The operations on the nodes of one kind of tree; `none` is an access outside a node, of a node
that is not there, or past the end of the pool. -/
structure TreeKind (K V N : Type) where
  levels : N → Nat
  /-- The entry at a key, and the tree after an assignment to that entry. -/
  modify : (Entry K V → Entry K V) → N → K → Option (Option (N × Entry K V))
  /-- `insert_prepared`: the new root, the rest of the pool and the link after the new one. -/
  insert : List Nat → Option N → Entry K V → Option (N × List Nat × Option Nat)
  delete : N → K → Option (Option N × Entry K V)

structure Tree (K V N : Type) where
  root : Option N
  size : Nat
  entryLimit : Nat
  generation : Nat
  chain : EntryChain.Chain
  record : Nat → Option (K × V)
  serial : Nat

namespace Tree

open SortedMap (Ordered Before After)

variable {K V N : Type}

def init (K V N : Type) (entryLimit generation : Nat) : Tree K V N :=
  ⟨none, 0, entryLimit, wrap (generation + 1), EntryChain.empty, fun _ => none, 0⟩

def levels (kind : TreeKind K V N) : Option N → Nat
  | none => 0
  | some root => kind.levels root

def find (kind : TreeKind K V N) (f : Entry K V → Entry K V) (tree : Tree K V N) (key : K) :
    Option (Option (N × Entry K V)) :=
  match tree.root with
  | none => some none
  | some root => kind.modify f root key

def poolPrepare (env : TreeEnv) (levels serial : Nat) : Except StlStatus (List Nat) :=
  if levels > sizeMax - 2 then .error .capacityExceeded
  else if levels + 2 > sizeMax / 8 then .error .capacityExceeded
  else if env.pool then .ok (List.range' serial (levels + 2))
  else .error .outOfMemory

def bump (tree : Tree K V N) : Tree K V N := { tree with generation := wrap (tree.generation + 1) }

def overwrite (tree : Tree K V N) (root : N) (old : Entry K V) (value : V) : Tree K V N :=
  { tree with
    root := some root
    record := Function.update tree.record old.link
      ((tree.record old.link).map fun (key, _) => (key, value)) }

/-- The tree after the structural insertion of the entry whose link is the next allocation. -/
def extend (tree : Tree K V N) (root : N) (entry : Entry K V) (next : Option Nat) (pool : Nat) :
    Tree K V N :=
  { tree with
    root := some root
    size := tree.size + 1
    chain := EntryChain.insertBefore tree.chain next entry.link
    record := Function.update tree.record entry.link (some (entry.key, entry.value))
    serial := tree.serial + 1 + pool }

def put (kind : TreeKind K V N) (env : TreeEnv) (tree : Tree K V N) (key : K) (value : V) :
    Option (StlStatus × Tree K V N) := do
  match ← tree.find kind (fun e => { e with value := value }) key with
  | some (root, old) =>
    if env.copyValue ≠ .ok then return (env.copyValue, tree)
    return (.ok, (tree.overwrite root old value).bump)
  | none =>
    if tree.size ≥ tree.entryLimit then return (.capacityExceeded, tree)
    if env.copyKey ≠ .ok then return (env.copyKey, tree)
    if env.copyValue ≠ .ok then return (env.copyValue, tree)
    if !env.link then return (.outOfMemory, tree)
    match poolPrepare env (levels kind tree.root) (tree.serial + 1) with
    | .error status => return (status, tree)
    | .ok pool =>
      let entry : Entry K V := ⟨key, value, tree.serial⟩
      let (root, _, next) ← kind.insert pool tree.root entry
      return (.ok, (tree.extend root entry next pool.length).bump)

def shrink (tree : Tree K V N) (root : Option N) (removed : Entry K V) : Tree K V N :=
  { tree with
    root := root
    size := tree.size - 1
    chain := EntryChain.unlink tree.chain removed.link
    record := Function.update tree.record removed.link none }

/-- The status, and the value that a successful removal moves to `out_value`. -/
def remove (kind : TreeKind K V N) (tree : Tree K V N) (key : K) :
    Option (StlStatus × Option V × Tree K V N) := do
  match ← tree.find kind id key with
  | none => return (.notFound, none, tree)
  | some _ =>
    let root ← tree.root
    let (root, removed) ← kind.delete root key
    return (.ok, some removed.value, (tree.shrink root removed).bump)

def get (kind : TreeKind K V N) (tree : Tree K V N) (key : K) : Option (Option V) :=
  (tree.find kind id key).map fun found => found.map fun (_, entry) => entry.value

def clear (tree : Tree K V N) : Tree K V N :=
  match tree.root with
  | none => tree
  | some _ =>
    { tree with
      root := none, size := 0, chain := EntryChain.empty, record := fun _ => none }.bump

inductive Op (K V : Type)
  | put (env : TreeEnv) (key : K) (value : V)
  | remove (key : K)
  | clear
  | lookup (key : K)

inductive Reply (V : Type)
  | status (s : StlStatus)
  | removed (s : StlStatus) (value : Option V)
  | found (value : Option V)
  | done
  deriving DecidableEq

def step (kind : TreeKind K V N) (tree : Tree K V N) : Op K V → Option (Reply V × Tree K V N)
  | .put env key value => (put kind env tree key value).map fun (s, tree) => (.status s, tree)
  | .remove key => (remove kind tree key).map fun (s, value, tree) => (.removed s value, tree)
  | .clear => some (.done, tree.clear)
  | .lookup key => (get kind tree key).map fun value => (.found value, tree)

def run (kind : TreeKind K V N) (tree : Tree K V N) :
    List (Op K V) → Option (List (Reply V) × Tree K V N)
  | [] => some ([], tree)
  | op :: ops => do
      let (reply, tree) ← step kind tree op
      let (replies, tree) ← run kind tree ops
      return (reply :: replies, tree)

/-- What a call does to a sorted map: a `put` inserts or replaces, or fails and does nothing; a
`remove` takes exactly the given key. -/
def MapStep (cmp : K → K → Ordering) (m : List (K × V)) :
    Op K V → Reply V → List (K × V) → Prop
  | .put _ key value, .status s, m' =>
    (s = .ok ∧ m' = SortedMap.put cmp key value m) ∨ (s ≠ .ok ∧ m' = m)
  | .remove key, .removed s value, m' =>
    m' = SortedMap.remove cmp key m ∧ value = (m.find? fun p => cmp p.1 key == .eq).map (·.2) ∧
      s = if value.isSome then .ok else .notFound
  | .clear, .done, m' => m' = []
  | .lookup key, .found value, m' =>
    value = (m.find? fun p => cmp p.1 key == .eq).map (·.2) ∧ m' = m
  | _, _, _ => False

inductive MapRun (cmp : K → K → Ordering) :
    List (K × V) → List (Op K V) → List (Reply V) → List (K × V) → Prop
  | nil {m} : MapRun cmp m [] [] m
  | cons {a b c op ops reply replies} : MapStep cmp a op reply b → MapRun cmp b ops replies c →
      MapRun cmp a (op :: ops) (reply :: replies) c

/-- Calls that split the root of a tree of degree 2, borrow from a sibling, merge two nodes and fail
for want of a pool. -/
def reshaping : List (Op Nat Nat) :=
  [.put ⟨.ok, .ok, true, true⟩ 1 10, .put ⟨.ok, .ok, true, true⟩ 2 20,
    .put ⟨.ok, .ok, true, true⟩ 3 30, .put ⟨.ok, .ok, true, true⟩ 4 40, .remove 1, .remove 2,
    .remove 3, .put ⟨.ok, .ok, true, false⟩ 5 50, .put ⟨.ok, .ok, true, true⟩ 2 22, .lookup 4]

def reshapingReplies : List (Reply Nat) :=
  [.status .ok, .status .ok, .status .ok, .status .ok, .removed .ok (some 10),
    .removed .ok (some 20), .removed .ok (some 30), .status .outOfMemory, .status .ok,
    .found (some 40)]

/-- What the operations of a kind of tree owe the rest: they find, insert and remove in the list
of entries of a well-formed tree whose keys ascend, and keep the tree well formed.  The shape may
depend on the serial numbers that name the nodes. -/
structure Laws (cmp : K → K → Ordering) (kind : TreeKind K V N) (entries : N → List (Entry K V))
    (Shape : Nat → N → Prop) : Prop where
  shape_mono : ∀ {b b' n}, b ≤ b' → Shape b n → Shape b' n
  branches : ∀ {b n}, Shape b n → 2 ^ kind.levels n ≤ 2 * (entries n).length
  modify : ∀ {b n} (f : Entry K V → Entry K V) (key : K), (∀ e, (f e).key = e.key) → Shape b n →
    Ordered Entry.key cmp (entries n) →
    (kind.modify f n key = some none ∧ ∀ e ∈ entries n, cmp e.key key ≠ .eq) ∨
    ∃ A e B n', kind.modify f n key = some (some (n', e)) ∧ cmp e.key key = .eq ∧ Shape b n' ∧
      entries n = A ++ e :: B ∧ entries n' = A ++ f e :: B
  insert_empty : ∀ (b : Nat) (entry : Entry K V), ∃ n, Shape (b + 1) n ∧ entries n = [entry] ∧
    ∀ count, 1 ≤ count →
      kind.insert (List.range' b count) none entry = some (n, List.range' (b + 1) (count - 1), none)
  insert : ∀ {b n} (entry : Entry K V), Shape b n → Ordered Entry.key cmp (entries n) →
    (∀ e ∈ entries n, cmp e.key entry.key ≠ .eq) →
    ∃ used ≤ kind.levels n + 2, ∃ A B n', Shape (b + used) n' ∧ entries n = A ++ B ∧
      entries n' = A ++ entry :: B ∧ Ordered Entry.key cmp (entries n') ∧
      ∀ count, used ≤ count →
        kind.insert (List.range' b count) (some n) entry =
          some (n', List.range' (b + used) (count - used), B.head?.map Entry.link)
  delete : ∀ {b n} (key : K), Shape b n → Ordered Entry.key cmp (entries n) →
    (∃ e ∈ entries n, cmp e.key key = .eq) →
    ∃ A e B root, kind.delete n key = some (root, e) ∧ cmp e.key key = .eq ∧
      entries n = A ++ e :: B ∧ (root.map entries).getD [] = A ++ B ∧ ∀ n' ∈ root, Shape b n'

end Tree

end Salts.Cstl

/-! ### Runs of calls -/

namespace Salts.Cstl.Tree

open Std
open SortedMap (Ordered Before After)

variable {K V N : Type}

def entriesOf (entries : N → List (Entry K V)) (tree : Tree K V N) : List (Entry K V) :=
  (tree.root.map entries).getD []

def pair (e : Entry K V) : K × V := (e.key, e.value)

def pairs (entries : N → List (Entry K V)) (tree : Tree K V N) : List (K × V) :=
  (tree.entriesOf entries).map pair

theorem run_shows {kind : TreeKind K V N} {entries : N → List (Entry K V)} {tree : Tree K V N}
    {ops : List (Op K V)} {replies : List (Reply V)} {l : List (K × V)}
    {P : List (Reply V) → Tree K V N → Prop}
    (hshow : (run kind tree ops).map (fun r => (r.1, r.2.pairs entries)) = some (replies, l))
    (h : ∃ replies tree', run kind tree ops = some (replies, tree') ∧ P replies tree') :
    ∃ tree', run kind tree ops = some (replies, tree') ∧ tree'.pairs entries = l ∧
      P replies tree' := by
  obtain ⟨replies',tree',hrun,hP⟩ := h
  rw [hrun] at hshow
  cases hshow
  exact ⟨tree',hrun,rfl,hP⟩

structure Inv (cmp : K → K → Ordering) (entries : N → List (Entry K V)) (Shape : Nat → N → Prop)
    (tree : Tree K V N) : Prop where
  shape : ∀ n ∈ tree.root, Shape tree.serial n
  ordered : Ordered Entry.key cmp (tree.entriesOf entries)
  size : tree.size = (tree.entriesOf entries).length
  threads : EntryChain.Threads tree.chain ((tree.entriesOf entries).map Entry.link)
  below : ∀ e ∈ tree.entriesOf entries, e.link < tree.serial
  record : ∀ e ∈ tree.entriesOf entries, tree.record e.link = some (pair e)

theorem inv_init (cmp : K → K → Ordering) (entries : N → List (Entry K V)) (Shape : Nat → N → Prop)
    (entryLimit generation : Nat) : Inv cmp entries Shape (init K V N entryLimit generation) :=
  ⟨nofun,List.Pairwise.nil,rfl,EntryChain.threads_empty,nofun,nofun⟩

section Calls

variable {cmp : K → K → Ordering} {kind : TreeKind K V N}
  {entries : N → List (Entry K V)} {Shape : Nat → N → Prop} {tree : Tree K V N}

theorem Inv.bump (h : Inv cmp entries Shape tree) : Inv cmp entries Shape tree.bump :=
  ⟨h.shape,h.ordered,h.size,h.threads,h.below,h.record⟩

variable {A B : List (Entry K V)} {e : Entry K V} {key : K}

theorem Inv.link_inj (h : Inv cmp entries Shape tree)
    (heq : tree.entriesOf entries = A ++ e :: B) : ∀ x ∈ A ++ B, x.link ≠ e.link := by
  have hnodup := h.threads.nodup
  rw [heq, List.map_append, List.map_cons, List.nodup_middle, List.nodup_cons,
    ← List.map_append] at hnodup
  exact fun x hx hlink => hnodup.1 (hlink ▸ List.mem_map_of_mem hx)

theorem before_pairs (h : Before Entry.key cmp A key) : Before Prod.fst cmp (A.map pair) key := by
  intro p hp
  obtain ⟨e,he,rfl⟩ := List.mem_map.1 hp
  exact h e he

theorem after_pairs (h : After Entry.key cmp key B) : After Prod.fst cmp key (B.map pair) := by
  intro p hp
  obtain ⟨e,he,rfl⟩ := List.mem_map.1 hp
  exact h e he

theorem find?_pairs_absent {l : List (Entry K V)} (h : ∀ e ∈ l, cmp e.key key ≠ .eq) :
    ((l.map pair).find? fun p => cmp p.1 key == .eq) = none := by
  rw [List.find?_eq_none]
  intro p hp
  obtain ⟨e,he,rfl⟩ := List.mem_map.1 hp
  simpa [pair] using h e he

theorem Inv.clear (h : Inv cmp entries Shape tree) :
    Inv cmp entries Shape tree.clear ∧ tree.clear.pairs entries = [] := by
  unfold Tree.clear
  cases hroot : tree.root with
  | none => exact ⟨h,by simp [pairs, entriesOf, hroot]⟩
  | some n =>
    exact ⟨⟨nofun,List.Pairwise.nil,rfl,EntryChain.threads_empty,nofun,nofun⟩,rfl⟩

theorem find?_pairs (hA : Before Entry.key cmp A key) (hkey : cmp e.key key = .eq) :
    (((A ++ e :: B).map pair).find? fun p => cmp p.1 key == .eq) = some (pair e) := by
  rw [List.map_append, List.find?_append, List.find?_eq_none.2]
  · simp [pair, hkey]
  · intro p hp
    simpa using (before_pairs hA).ne p hp

theorem Inv.extend (laws : Laws cmp kind entries Shape) (h : Inv cmp entries Shape tree) {n : N}
    {used count : Nat} (hlink : e.link = tree.serial) (hshape : Shape (tree.serial + 1 + used) n)
    (hused : used ≤ count) (heq : tree.entriesOf entries = A ++ B) (hn : entries n = A ++ e :: B)
    (hordered : Ordered Entry.key cmp (entries n)) :
    Inv cmp entries Shape (tree.extend n e (B.head?.map Entry.link) count) := by
  have hentries : (tree.extend n e (B.head?.map Entry.link) count).entriesOf entries =
      A ++ e :: B := hn
  have hbelow := h.below
  rw [heq] at hbelow
  refine ⟨fun m hm => ?_,?_,?_,?_,?_,?_⟩
  · cases hm
    exact laws.shape_mono (Nat.add_le_add_left hused _) hshape
  · exact hordered
  · rw [hentries, Tree.extend, h.size, heq, List.length_append, List.length_append,
      List.length_cons, Nat.add_assoc]
  · rw [hentries, List.map_append]
    have hthreads := h.threads
    rw [heq, List.map_append] at hthreads
    rw [← List.head?_map]
    apply hthreads.insertBefore
    intro hmem
    rw [← List.map_append] at hmem
    obtain ⟨x,hx,hxe⟩ := List.mem_map.1 hmem
    exact absurd (hbelow x hx) (by omega)
  · intro x hx
    rw [hentries, List.mem_append, List.mem_cons] at hx
    show x.link < tree.serial+1+count
    rcases hx with hx | rfl | hx
    · have := hbelow x (List.mem_append_left B hx)
      omega
    · omega
    · have := hbelow x (List.mem_append_right A hx)
      omega
  · intro x hx
    rw [hentries, List.mem_append, List.mem_cons] at hx
    have hrecord := h.record
    rw [heq] at hrecord
    simp only [Tree.extend]
    rcases hx with hx | rfl | hx
    · have hne := hbelow x (List.mem_append_left B hx)
      rw [Function.update_of_ne (by omega), hrecord x (List.mem_append_left B hx)]
    · rw [Function.update_self]
      rfl
    · have hne := hbelow x (List.mem_append_right A hx)
      rw [Function.update_of_ne (by omega), hrecord x (List.mem_append_right A hx)]

/-- The insertion of an absent key takes at most two nodes more than the tree has levels, however
many nodes the pool has. -/
theorem Inv.insert (laws : Laws cmp kind entries Shape) (h : Inv cmp entries Shape tree) (key : K)
    (value : V) (habsent : ∀ e ∈ tree.entriesOf entries, cmp e.key key ≠ .eq) :
    ∃ used ≤ levels kind tree.root + 2, ∃ A B n, Shape (tree.serial + 1 + used) n ∧
      tree.entriesOf entries = A ++ B ∧ entries n = A ++ ⟨key, value, tree.serial⟩ :: B ∧
      Ordered Entry.key cmp (entries n) ∧ ∀ count, used ≤ count →
        kind.insert (List.range' (tree.serial + 1) count) tree.root ⟨key, value, tree.serial⟩ =
          some (n, List.range' (tree.serial + 1 + used) (count - used), B.head?.map Entry.link) := by
  cases hroot : tree.root with
  | none =>
    obtain ⟨n,hshape,hn,hinsert⟩ := laws.insert_empty (tree.serial + 1) ⟨key,value,tree.serial⟩
    refine ⟨1,by simp,[],[],n,hshape,?_,hn,?_,hinsert⟩
    · simp [entriesOf, hroot]
    · rw [hn]
      exact List.pairwise_singleton _ _
  | some n =>
    have hentries : tree.entriesOf entries = entries n := by rw [entriesOf, hroot]; rfl
    have hordered := h.ordered
    rw [hentries] at hordered habsent ⊢
    obtain ⟨used,hused,A,B,n',hshape,hA,hn',hord,hinsert⟩ := laws.insert
      ⟨key,value,tree.serial⟩
      (laws.shape_mono (Nat.le_succ _) (h.shape n hroot)) hordered habsent
    exact ⟨used,hused,A,B,n',hshape,hA,hn',hord,hinsert⟩

/-- Why a `put` may fail: a copy, an allocation, or the limit of the tree or of a `size_t`. -/
def Refuses (env : TreeEnv) (tree : Tree K V N) : Prop :=
  env.copyKey ≠ .ok ∨ env.copyValue ≠ .ok ∨ env.link = false ∨ env.pool = false ∨
    tree.entryLimit ≤ tree.size ∨ sizeMax < tree.size

/-- A tree with as many levels as the pool has no room for has more entries than a `size_t`
counts. -/
theorem Inv.levels_small (laws : Laws cmp kind entries Shape) (h : Inv cmp entries Shape tree)
    (hpool : sizeMax / 8 < levels kind tree.root + 2) : sizeMax < tree.size := by
  unfold sizeMax at *
  cases hroot : tree.root with
  | none => simp [hroot, levels] at hpool
  | some n =>
    rw [hroot, levels] at hpool
    have hsize : tree.size = (entries n).length := by rw [h.size, entriesOf, hroot]; rfl
    have hdeep : 2 ^ 65 ≤ 2 ^ kind.levels n := Nat.pow_le_pow_right (by decide) (by omega)
    have hbranches := laws.branches (h.shape n hroot)
    omega

theorem poolPrepare_cases (env : TreeEnv) (levels serial : Nat) :
    poolPrepare env levels serial = .ok (List.range' serial (levels + 2)) ∨
      ∃ s, poolPrepare env levels serial = .error s ∧ s ≠ .ok ∧
        (env.pool = false ∨ sizeMax / 8 < levels + 2) := by
  unfold poolPrepare
  split
  · refine .inr ⟨_,rfl,by decide,.inr ?_⟩
    omega
  split
  · rename_i hlevels
    exact .inr ⟨_,rfl,by decide,.inr hlevels⟩
  split
  · exact .inl rfl
  · rename_i hpool
    exact .inr ⟨_,rfl,by decide,.inl (by simpa using hpool)⟩

theorem Inv.shrink (h : Inv cmp entries Shape tree) {root : Option N}
    (hshape : ∀ n ∈ root, Shape tree.serial n) (heq : tree.entriesOf entries = A ++ e :: B)
    (hroot : (root.map entries).getD [] = A ++ B) : Inv cmp entries Shape (tree.shrink root e) := by
  have hentries : (tree.shrink root e).entriesOf entries = A ++ B := hroot
  have hsub : ∀ {x}, x ∈ A ++ B → x ∈ A ++ e :: B := by
    intro x hx
    exact ((List.sublist_cons_self e B).append_left A).mem hx
  refine ⟨hshape,?_,?_,?_,?_,?_⟩
  · rw [hentries]
    exact (heq ▸ h.ordered).drop_mid
  · show tree.size-1 = _
    rw [hentries, h.size, heq, List.length_append, List.length_append, List.length_cons]
    omega
  · have hthreads := h.threads
    rw [heq, List.map_append] at hthreads
    rw [hentries, List.map_append]
    exact hthreads.unlink
  · intro x hx
    rw [hentries] at hx
    exact h.below x (heq ▸ hsub hx)
  · intro x hx
    rw [hentries] at hx
    simp only [Tree.shrink]
    rw [Function.update_of_ne (h.link_inj heq x hx), h.record x (heq ▸ hsub hx)]

variable [TransCmp cmp]

theorem Inv.find (laws : Laws cmp kind entries Shape) (h : Inv cmp entries Shape tree)
    (f : Entry K V → Entry K V) (hf : ∀ e, (f e).key = e.key) (key : K) :
    (tree.find kind f key = some none ∧ ∀ e ∈ tree.entriesOf entries, cmp e.key key ≠ .eq) ∨
    ∃ A e B n', tree.find kind f key = some (some (n', e)) ∧ cmp e.key key = .eq ∧
      Shape tree.serial n' ∧ tree.entriesOf entries = A ++ e :: B ∧ entries n' = A ++ f e :: B ∧
      Before Entry.key cmp A key ∧ After Entry.key cmp key B := by
  unfold Tree.find
  cases hroot : tree.root with
  | none =>
    left
    simp [entriesOf, hroot]
  | some n =>
    have hentries : tree.entriesOf entries = entries n := by rw [entriesOf, hroot]; rfl
    have hordered := h.ordered
    rw [hentries] at hordered ⊢
    rcases laws.modify f key hf (h.shape n hroot) hordered with habsent | ⟨A,e,B,n',hfound⟩
    · exact .inl habsent
    obtain ⟨hmodify,hkey,hshape,heq,heq'⟩ := hfound
    rw [heq] at hordered
    obtain ⟨-,-,hA,hB⟩ := SortedMap.ordered_mid.1 hordered
    exact .inr ⟨A,e,B,n',hmodify,hkey,hshape,heq,heq',hA.of_eq hkey,
      hB.of_eq (OrientedCmp.eq_symm hkey)⟩

theorem Inv.overwrite (h : Inv cmp entries Shape tree) {n : N} (value : V)
    (hshape : Shape tree.serial n) (heq : tree.entriesOf entries = A ++ e :: B)
    (hn : entries n = A ++ { e with value := value } :: B) :
    Inv cmp entries Shape (tree.overwrite n e value) := by
  have hentries : (tree.overwrite n e value).entriesOf entries =
      A ++ { e with value := value } :: B := hn
  have hordered := h.ordered
  rw [heq, SortedMap.ordered_mid] at hordered
  refine ⟨fun m hm => ?_,?_,?_,?_,?_,?_⟩
  · cases hm
    exact hshape
  · rw [hentries]
    exact SortedMap.ordered_mid.2 hordered
  · rw [hentries, Tree.overwrite, h.size, heq]
    simp
  · have := h.threads
    rw [heq] at this
    rw [hentries, List.map_append]
    rwa [List.map_append, List.map_cons] at this
  · have := h.below
    rw [heq, List.forall_mem_append, List.forall_mem_cons] at this
    rw [hentries, List.forall_mem_append, List.forall_mem_cons]
    exact this
  · have hrecord := h.record
    have hne := h.link_inj heq
    rw [heq, List.forall_mem_append, List.forall_mem_cons] at hrecord
    rw [List.forall_mem_append] at hne
    rw [hentries, List.forall_mem_append, List.forall_mem_cons]
    refine ⟨fun x hx => ?_,?_,fun x hx => ?_⟩
    · simp only [Tree.overwrite]
      rw [Function.update_of_ne (hne.1 x hx), hrecord.1 x hx]
    · simp only [Tree.overwrite]
      rw [Function.update_self, hrecord.2.1]
      rfl
    · simp only [Tree.overwrite]
      rw [Function.update_of_ne (hne.2 x hx), hrecord.2.2 x hx]

section

variable (laws : Laws cmp kind entries Shape)

include laws

section

variable (h : Inv cmp entries Shape tree)

include h

theorem Inv.put (env : TreeEnv) (key : K) (value : V) :
    ∃ s tree', put kind env tree key value = some (s, tree') ∧
      ((s = .ok ∧ Inv cmp entries Shape tree' ∧
          tree'.pairs entries = SortedMap.put cmp key value (tree.pairs entries) ∧
          tree'.generation = wrap (tree.generation + 1)) ∨
        (s ≠ .ok ∧ tree' = tree ∧ Refuses env tree)) := by
  unfold Tree.put
  rcases h.find laws (fun e => { e with value := value }) (fun _ => rfl) key with
    ⟨hfind,habsent⟩ | ⟨A,e,B,n,hfind,hkey,hshape,heq,hn,hA,-⟩
  · rw [hfind]
    simp only [Option.bind_eq_bind, Option.bind_some]
    split
    · rename_i hfail
      exact ⟨_,_,rfl,.inr ⟨by decide,rfl,by simp [Refuses, hfail]⟩⟩
    split
    · rename_i hfail
      exact ⟨_,_,rfl,.inr ⟨hfail,rfl,.inl hfail⟩⟩
    split
    · rename_i hfail
      exact ⟨_,_,rfl,.inr ⟨hfail,rfl,.inr (.inl hfail)⟩⟩
    split
    · rename_i hfail
      exact ⟨_,_,rfl,.inr ⟨by decide,rfl,.inr (.inr (.inl (by simpa using hfail)))⟩⟩
    rcases poolPrepare_cases env (levels kind tree.root) (tree.serial + 1) with
      hpool | ⟨s,hpool,hs,hwhy⟩
    · rw [hpool]
      obtain ⟨used,hused,A,B,n,hshape,heq,hn,hordered,hinsert⟩ := h.insert laws key value habsent
      have hmid := SortedMap.ordered_mid.1 (hn ▸ hordered)
      simp only [hinsert _ hused, List.length_range']
      refine ⟨_,_,rfl,.inl ⟨rfl,(h.extend laws (e := ⟨key,value,tree.serial⟩) rfl hshape
        hused heq hn hordered).bump,?_,rfl⟩⟩
      have hpairs : tree.pairs entries = A.map pair ++ B.map pair := by
        rw [pairs, heq, List.map_append]
      rw [hpairs, SortedMap.put_new value (before_pairs hmid.2.2.1) (after_pairs hmid.2.2.2)]
      show (entries n).map pair = _
      rw [hn, List.map_append, List.map_cons]
      rfl
    · rw [hpool]
      refine ⟨_,_,rfl,.inr ⟨hs,rfl,?_⟩⟩
      rcases hwhy with hwhy | hwhy
      · simp [Refuses, hwhy]
      · simp [Refuses, h.levels_small laws hwhy]
  · rw [hfind]
    split
    · rename_i hfail
      exact ⟨_,_,rfl,.inr ⟨hfail,rfl,.inr (.inl hfail)⟩⟩
    · refine ⟨_,_,rfl,.inl ⟨rfl,(h.overwrite value hshape heq hn).bump,?_,rfl⟩⟩
      have hpairs : tree.pairs entries = A.map pair ++ pair e :: B.map pair := by
        rw [pairs, heq, List.map_append, List.map_cons]
      rw [hpairs, pair, SortedMap.put_found _ _ (before_pairs hA) hkey]
      show (entries n).map pair = _
      rw [hn, List.map_append, List.map_cons]
      rfl

theorem Inv.refuses {env : TreeEnv} {value : V} {s : StlStatus} {tree' : Tree K V N}
    (hput : Tree.put kind env tree key value = some (s, tree')) (hs : s ≠ .ok) :
    Refuses env tree := by
  obtain ⟨s',tree'',hput',⟨hok,-⟩ | ⟨-,-,hwhy⟩⟩ := h.put laws env key value
  · rw [hput] at hput'
    cases hput'
    exact absurd hok hs
  · exact hwhy

theorem Inv.remove (key : K) :
    ∃ s value tree', remove kind tree key = some (s, value, tree') ∧
      Inv cmp entries Shape tree' ∧
      tree'.pairs entries = SortedMap.remove cmp key (tree.pairs entries) ∧
      value = ((tree.pairs entries).find? fun p => cmp p.1 key == .eq).map (·.2) ∧
      s = (if value.isSome then .ok else .notFound) ∧
      (s = .ok → tree'.generation = wrap (tree.generation + 1)) ∧ (s ≠ .ok → tree' = tree) := by
  unfold Tree.remove
  rcases h.find laws id (fun _ => rfl) key with
    ⟨hfind,habsent⟩ | ⟨A,e,B,n,hfind,hkey,hshape,heq,hn,hA,hB⟩
  · rw [hfind]
    refine ⟨_,_,_,rfl,h,?_,?_,rfl,by simp,fun _ => rfl⟩
    · rw [SortedMap.remove_absent]
      intro p hp
      obtain ⟨e,he,rfl⟩ := List.mem_map.1 hp
      exact habsent e he
    · rw [pairs, find?_pairs_absent habsent]
      rfl
  · rw [hfind]
    simp only [Option.bind_eq_bind]
    cases hroot : tree.root with
    | none =>
      rw [entriesOf, hroot] at heq
      simp at heq
    | some root =>
      have hentries : tree.entriesOf entries = entries root := by rw [entriesOf, hroot]; rfl
      obtain ⟨A',e',B',root',hdelete,hkey',heq',hroot',hshape'⟩ :=
        laws.delete key (h.shape root hroot) (hentries ▸ h.ordered)
          ⟨e,by rw [← hentries, heq]; exact List.mem_append_right A List.mem_cons_self,hkey⟩
      rw [← hentries, heq] at heq'
      obtain ⟨rfl,rfl,rfl⟩ := (heq ▸ h.ordered).split_unique heq'
        (TransCmp.eq_trans hkey (OrientedCmp.eq_symm hkey'))
      simp only [hdelete, Option.bind_some]
      have hpairs : tree.pairs entries = A.map pair ++ pair e :: B.map pair := by
        rw [pairs, heq, List.map_append, List.map_cons]
      refine ⟨_,_,_,rfl,(h.shrink hshape' heq hroot').bump,?_,?_,rfl,fun _ => rfl,
        fun hs => absurd rfl hs⟩
      · rw [hpairs, SortedMap.remove_found hkey (before_pairs hA).ne (after_pairs hB).ne]
        show ((root'.map entries).getD []).map pair = _
        rw [hroot', List.map_append]
      · rw [pairs, heq, find?_pairs hA hkey]
        rfl

theorem Inv.get (key : K) :
    get kind tree key =
      some (((tree.pairs entries).find? fun p => cmp p.1 key == .eq).map (·.2)) := by
  unfold Tree.get
  rcases h.find laws id (fun _ => rfl) key with
    ⟨hfind,habsent⟩ | ⟨A,e,B,n,hfind,hkey,-,heq,-,hA,-⟩
  · rw [hfind, pairs, find?_pairs_absent habsent]
    rfl
  · rw [hfind, pairs, heq, find?_pairs hA hkey]
    rfl

/-- Every call has a result, keeps the invariant and does what a sorted map does. -/
theorem Inv.step (op : Op K V) : ∃ reply tree', Tree.step kind tree op = some (reply, tree') ∧
      Inv cmp entries Shape tree' ∧
      MapStep cmp (tree.pairs entries) op reply (tree'.pairs entries) := by
  cases op with
  | put env key value =>
    obtain ⟨s,tree',heq,⟨hs,hinv,hpairs,-⟩ | ⟨hs,rfl,-⟩⟩ := h.put laws env key value
    · exact ⟨.status s,tree',by rw [Tree.step, heq]; rfl,hinv,.inl ⟨hs,hpairs⟩⟩
    · exact ⟨.status s,tree',by rw [Tree.step, heq]; rfl,h,.inr ⟨hs,rfl⟩⟩
  | remove key =>
    obtain ⟨s,value,tree',heq,hinv,hpairs,hvalue,hs,-⟩ := h.remove laws key
    exact ⟨.removed s value,tree',by rw [Tree.step, heq]; rfl,hinv,hpairs,hvalue,hs⟩
  | clear => exact ⟨_,_,rfl,h.clear.1,h.clear.2⟩
  | lookup key =>
    exact ⟨.found _,tree,by rw [Tree.step, h.get laws key]; rfl,h,rfl,rfl⟩

theorem Inv.run (ops : List (Op K V)) :
    ∃ replies tree', Tree.run kind tree ops = some (replies, tree') ∧
      Inv cmp entries Shape tree' ∧
      MapRun cmp (tree.pairs entries) ops replies (tree'.pairs entries) := by
  induction ops generalizing tree with
  | nil => exact ⟨[],tree,rfl,h,.nil⟩
  | cons op ops ih =>
    obtain ⟨reply,tree₁,heq,hinv,hstep⟩ := h.step laws op
    obtain ⟨replies,tree₂,hrun,hinv₂,hrest⟩ := ih hinv
    refine ⟨reply :: replies,tree₂,?_,hinv₂,.cons hstep hrest⟩
    simp only [Tree.run, heq, hrun, Option.bind_eq_bind, Option.bind_some]
    rfl

end

end

end Calls

end Salts.Cstl.Tree
