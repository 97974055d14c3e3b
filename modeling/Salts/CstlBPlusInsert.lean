import Salts.CstlBPlus

/-! Search and insertion in a B+-tree. -/

namespace Salts.Cstl.BPlus

open Std PNode
open SortedMap (Ordered Before After)
open SortedMap
open List

variable {K V : Type} {cmp : K → K → Ordering} {t h : Nat}

structure Kept (t h : Nat) (new : List Nat) (n n' : PNode K V) : Prop extends
    Keeps new [n] [n'] where
  wf : WF t h n'
  id : n'.fields.id = n.fields.id
  parent : n'.fields.parent = n.fields.parent

variable {new : List Nat} {c c' : PNode K V} {f g : Fields K V} {cs ds : List (PNode K V)}

theorem Kept.child {i : Nat} (hk : Kept t h new c c') (hc : Child t h i c)
    (hlow : t - 1 ≤ c'.numKeys) (hhigh : c'.numKeys ≤ 2 * t - 1) : Child t h i c' :=
  ⟨hk.wf,hk.parent.trans hc.parent,hlow,hhigh⟩

theorem Keeps.inner (hk : Keeps new cs ds) (hr : Ready t (h + 1) f cs) (hr' : Ready t (h + 1) g ds)
    (hid : g.id = f.id) : Keeps new [.mk f cs] [.mk g ds] := by
  refine ⟨?_,fun i => ?_⟩
  · rw [leavesOf_cons, leavesOf_cons, leavesOf_nil, append_nil, append_nil, hr.leaves_eq,
      hr'.leaves_eq]
    exact hk.chain
  · have := hk.ids i
    simp only [idsOf_cons, idsOf_nil, PNode.ids, append_nil, count_cons, hid]
    omega

theorem Keeps.refresh {n n' : PNode K V} (hk : Keeps new [n] [n']) :
    Keeps new [n] [n'.refresh] := by
  refine ⟨?_,fun i => ?_⟩
  · simpa using hk.chain
  · simpa using hk.ids i

theorem kept_inner (ht : 2 ≤ t) (hr : Ready t (h + 1) f cs) (hid : g.id = f.id)
    (hparent : g.parent = f.parent) (hleaf : g.isLeaf = f.isLeaf) (hes : g.entries = f.entries)
    (hne : ds ≠ []) (hds : ∀ c ∈ ds, Child t h f.id c) (hk : Keeps new cs ds) :
    Ready t (h + 1) g ds ∧ Kept t (h + 1) new (.mk f cs) (PNode.mk g ds).refresh := by
  have hready : Ready t (h+1) g ds :=
    ⟨hleaf.trans hr.isLeaf,nofun,fun _ => ⟨hes.trans (hr.inner (by simp)).1,hne⟩,hid ▸ hds⟩
  exact ⟨hready,(hk.inner hr hready hid).refresh,hready.refresh ht,by simpa using hid,
    by simpa using hparent⟩

theorem Ready.entries (hr : Ready t 0 f []) (es : List (Entry K V)) :
    Ready t 0 { f with entries := es } [] ∧
      Keeps [] [.mk f []] [.mk { f with entries := es } []] := by
  have hready : Ready t 0 { f with entries := es } [] :=
    ⟨hr.isLeaf,fun _ => rfl,fun h => absurd rfl h,nofun⟩
  refine ⟨hready,⟨fun z => ?_,fun z hz => ?_⟩,fun i => by simp [ids]⟩
  · simp only [leavesOf_cons, hr.leaves_leaf, hready.leaves_leaf]
    rfl
  · simp only [leavesOf_cons, hr.leaves_leaf, hready.leaves_leaf] at hz ⊢
    exact hz

theorem minKey_cons (hr : Ready t (h + 1) f (c :: cs)) (hc : flat c ≠ []) :
    minKey (.mk f (c :: cs)) = minKey c := by
  rw [minKey, hr.flat_eq, flatOf_cons, head?_append_of_ne_nil _ hc]
  rfl

variable {P Q cs : List (PNode K V)}

theorem WF.with_child (ht : 2 ≤ t)
    (hwf : WF t (h + 1) (.mk f (P ++ c :: Q))) (hc : Child t h f.id c')
    (hmin : minKey c' = minKey c) : WF t (h + 1) (.mk f (P ++ c' :: Q)) := by
  have hr := hwf.ready
  have hready : Ready t (h+1) f (P ++ c' :: Q) := by
    refine ⟨hr.isLeaf,nofun,fun _ => ⟨(hr.inner (by simp)).1,by simp⟩,fun x hx => ?_⟩
    rcases mem_append.1 hx with hx | hx
    · exact hr.children x (mem_append_left _ hx)
    · rcases mem_cons.1 hx with rfl | hx
      · exact hc
      · exact hr.children x (mem_append_right _ (mem_cons_of_mem _ hx))
  have hold := hr.children c (mem_append_right _ mem_cons_self)
  have hfirst := hwf.firstKey_eq
  refine ⟨hwf.1,hwf.2.1,by simp,?_,?_,fun x hx => ?_⟩
  · cases P with
    | nil =>
      rw [nil_append] at *
      rw [minKey_cons hready (hc.flat_ne_nil ht), hmin, ← minKey_cons hr (hold.flat_ne_nil ht)]
      exact hfirst
    | cons p P =>
      have hp := hr.children p mem_cons_self
      rw [cons_append] at *
      rw [minKey_cons hready (hp.flat_ne_nil ht), ← minKey_cons hr (hp.flat_ne_nil ht)]
      exact hfirst
  · have hsep := hwf.2.2.2.2.1
    cases P with
    | nil => exact hsep
    | cons p P =>
      simp only [fields_mk, children_mk, cons_append, tail_cons, map_append, map_cons] at hsep ⊢
      rw [hsep, hmin]
  · have hx := hready.children x hx
    exact ⟨hx.wf,hx.parent,hx.low,hx.high⟩

variable {n c : PNode K V} {f : Fields K V}

section Search

variable [TransCmp cmp]

theorem childIndex_spec (key : K)
    (hne : ∀ x ∈ cs, flat x ≠ []) (hord : Ordered Entry.key cmp (flatOf (c :: cs))) :
    ∃ P x Q, c :: cs = P ++ x :: Q ∧ childIndex cmp key (cs.map minKey) = some P.length ∧
      Before Entry.key cmp (flatOf P) key ∧ After Entry.key cmp key (flatOf Q) := by
  induction cs generalizing c with
  | nil => exact ⟨[],c,[],rfl,rfl,by simp [Before],by simp [After]⟩
  | cons d cs ih =>
    obtain ⟨hd,hcs⟩ := forall_mem_cons.1 hne
    obtain ⟨e,es,he⟩ := exists_cons_of_ne_nil hd
    have hmin : minKey d = some e.key := by rw [minKey, he]; rfl
    rw [flatOf_cons] at hord
    have hrest := hord.append.2
    rw [flatOf_cons, he] at hord
    obtain ⟨-,-,hbefore,hafter⟩ := ordered_mid.1 hord
    by_cases hlt : cmp key e.key = .lt
    · refine ⟨[],c,d :: cs,rfl,?_,by simp [Before],?_⟩
      · simp only [map_cons, hmin, childIndex, hlt]
        rfl
      · rw [flatOf_cons, he]
        exact forall_mem_cons.2 ⟨hlt,fun x hx => TransCmp.lt_trans hlt (hafter x hx)⟩
    · obtain ⟨P,x,Q,heq,hindex,hP,hQ⟩ := ih hcs hrest
      refine ⟨c :: P,x,Q,by rw [heq, cons_append],?_,?_,hQ⟩
      · simp only [map_cons, hmin, childIndex, ne_eq, hlt, hindex]
        rfl
      · rw [flatOf_cons]
        refine forall_mem_append.2 ⟨fun a ha => ?_,hP⟩
        cases hcmp : cmp key e.key with
        | lt => exact absurd hcmp hlt
        | eq => exact TransCmp.lt_of_lt_of_eq (hbefore a ha) (OrientedCmp.eq_symm hcmp)
        | gt => exact TransCmp.lt_trans (hbefore a ha) (OrientedCmp.lt_of_gt hcmp)

theorem WF.descend (ht : 2 ≤ t)
    (hwf : WF t (h + 1) (.mk f cs)) (hord : Ordered Entry.key cmp (flat (.mk f cs))) (key : K) :
    ∃ P c Q, cs = P ++ c :: Q ∧ childIndex cmp key f.separators = some P.length ∧
      Before Entry.key cmp (flatOf P) key ∧ After Entry.key cmp key (flatOf Q) ∧
      Child t h f.id c ∧ Ordered Entry.key cmp (flat c) ∧
      flat (.mk f cs) = flatOf P ++ (flat c ++ flatOf Q) := by
  have hr := hwf.ready
  obtain ⟨d,cs,rfl⟩ := exists_cons_of_ne_nil (hr.inner (by simp)).2
  rw [hr.flat_eq] at hord ⊢
  obtain ⟨P,c,Q,heq,hindex,hP,hQ⟩ := childIndex_spec key (fun x hx =>
    (show Child t h f.id x from hr.children x (mem_cons_of_mem d hx)).flat_ne_nil ht) hord
  rw [heq] at hord ⊢
  rw [flatOf_append, flatOf_cons] at hord ⊢
  refine ⟨P,c,Q,rfl,?_,hP,hQ,hr.children c ?_,hord.append.2.append.1,rfl⟩
  · rw [show f.separators = cs.map minKey from hwf.2.2.2.2.1, hindex]
  · rw [heq]
    exact mem_append_right _ mem_cons_self

theorem modify_spec (ht : 2 ≤ t) (f : Entry K V → Entry K V) (hf : ∀ e, (f e).key = e.key) (key : K)
    {fuel : Nat} (hfuel : h < fuel) (hwf : WF t h n) (hord : Ordered Entry.key cmp (flat n)) :
    (modify cmp f fuel n key = some none ∧ ∀ e ∈ flat n, cmp e.key key ≠ .eq) ∨
    ∃ A e B n', modify cmp f fuel n key = some (some (n', e)) ∧ cmp e.key key = .eq ∧
      Kept t h [] n n' ∧ n'.numKeys = n.numKeys ∧ minKey n' = minKey n ∧
      flat n = A ++ e :: B ∧ flat n' = A ++ f e :: B := by
  induction fuel generalizing n h with
  | zero => omega
  | succ fuel ih =>
    obtain ⟨g,cs⟩ := n
    have hr := hwf.ready
    cases h with
    | zero =>
      obtain rfl := hr.leaf rfl
      have hleaf := hr.isLeaf
      rw [hr.flat_leaf] at hord ⊢
      obtain ⟨A,B,hes,hA,hB | ⟨e,B,rfl,he,hB⟩⟩ := hord.cut key
      · left
        constructor
        · simp only [modify, hleaf, hes, lowerBound_append hA hB.not_lt]
          cases B with
          | nil => simp
          | cons b B => simpa using hB.ne b mem_cons_self
        · rw [hes]
          exact forall_mem_append.2 ⟨hA.ne,hB.ne⟩
      · right
        have hbound := lowerBound_append (B := e :: B) hA (forall_mem_cons.2
          ⟨by simp [he],hB.not_lt⟩)
        obtain ⟨hready,hkeeps⟩ := hr.entries (A ++ f e :: B)
        have hmin : minKey (.mk { g with entries := A ++ f e :: B } []) = minKey (.mk g []) := by
          rw [minKey, minKey, hr.flat_leaf, hready.flat_leaf, hes]
          cases A with
          | nil => simp [hf]
          | cons a A => rfl
        refine ⟨A,e,B,.mk { g with entries := A ++ f e :: B } [],?_,he,
          ⟨hkeeps,⟨hleaf,rfl,hwf.firstKey_eq.trans hmin.symm⟩,rfl,rfl⟩,?_,hmin,hes,
          hready.flat_leaf⟩
        · simp only [modify, hleaf, hes, hbound]
          simp [he]
        · rw [hready.numKeys_leaf, hr.numKeys_leaf, hes]
          simp
    | succ h =>
      obtain ⟨P,c,Q,rfl,hindex,hP,hQ,hc,hordc,hflat⟩ := hwf.descend ht hord key
      have hinner := hr.isLeaf
      have hstep : modify cmp f (fuel+1) (.mk g (P ++ c :: Q)) key =
          (modify cmp f fuel c key).map fun found => found.map fun p =>
            (.mk g (P ++ p.1 :: Q),p.2) := by
        simp only [modify, hinner, hindex, Option.bind_eq_bind, Option.bind_some,
          getElem?_mid rfl, set_mid rfl]
        cases modify cmp f fuel c key <;> rfl
      rw [hstep, hflat]
      rcases ih (by omega) hc.wf hordc with ⟨hnone,habsent⟩ | ⟨A,e,B,c',hsome,hfound⟩
      · left
        rw [hnone]
        exact ⟨rfl,forall_mem_append.2 ⟨hP.ne,forall_mem_append.2 ⟨habsent,hQ.ne⟩⟩⟩
      · right
        obtain ⟨he,hk,hnum,hmin,hA,hA'⟩ := hfound
        have hc' := hk.child hc (hnum ▸ hc.low) (hnum ▸ hc.high)
        have hwf' := hwf.with_child ht hc' hmin
        have hr' := hwf'.ready
        have hkeeps := hk.toKeeps.context P Q
        rw [hsome]
        refine ⟨flatOf P ++ A,e,B ++ flatOf Q,_,rfl,he,
          ⟨hkeeps.inner hr hr' rfl,hwf',rfl,rfl⟩,?_,?_,?_,?_⟩
        · rw [hr'.numKeys_inner, hr.numKeys_inner]
          simp
        · rw [← hwf'.firstKey_eq, ← hwf.firstKey_eq]
          rfl
        · rw [hA]
          simp
        · rw [hr'.flat_eq, flatOf_append, flatOf_cons, hA']
          simp

end Search

section Insert

def Hinted (n : PNode K V) (B : List (Entry K V)) : Hint → Prop
  | .link l => B.head?.map Entry.link = some l
  | .leaf next => ∃ L l M, leaves n = L ++ l :: M ∧ l.next = next ∧ M.flatMap Leaf.entries = B

structure Inserted (cmp : K → K → Ordering) (t h : Nat) (entry : Entry K V) (new : List Nat)
    (A B : List (Entry K V)) (hint : Hint) (n n' : PNode K V) : Prop extends Kept t h new n n' where
  low : n.numKeys ≤ n'.numKeys
  high : n'.numKeys ≤ n.numKeys + 1
  before : flat n = A ++ B
  after : flat n' = A ++ entry :: B
  left : Before Entry.key cmp A entry.key
  right : After Entry.key cmp entry.key B
  hinted : Hinted n' B hint

variable {entry : Entry K V}

theorem Inserted.below (ht : 2 ≤ t) {new new' : List Nat} {A B : List (Entry K V)} {hint : Hint}
    {f g : Fields K V} {c c' : PNode K V}
    (hins : Inserted cmp t h entry new' A B hint c c') (hr : Ready t (h + 1) f cs)
    (hg : g.id = f.id ∧ g.parent = f.parent ∧ g.isLeaf = f.isLeaf ∧ g.entries = f.entries)
    (hcs : ∀ x ∈ P ++ c :: Q, Child t h f.id x) (hk : Keeps new cs (P ++ c :: Q))
    (hflat : flatOf cs = flatOf P ++ (flat c ++ flatOf Q)) (hnot : c.numKeys < 2 * t - 1)
    (hP : Before Entry.key cmp (flatOf P) entry.key) (hQ : After Entry.key cmp entry.key (flatOf Q))
    (hlow : cs.length ≤ (P ++ c :: Q).length) (hhigh : (P ++ c :: Q).length ≤ cs.length + 1) :
    Inserted cmp t (h + 1) entry (new ++ new') (flatOf P ++ A) (B ++ flatOf Q) hint (.mk f cs)
      (PNode.mk g (P ++ c' :: Q)).refresh := by
  have hc := hcs c (mem_append_right _ mem_cons_self)
  have hhi := hins.high
  have hlo := hins.low
  have hmin := hc.low
  have hchildren : ∀ x ∈ P ++ c' :: Q, Child t h f.id x := by
    intro x hx
    rcases mem_append.1 hx with hx | hx
    · exact hcs x (mem_append_left _ hx)
    · rcases mem_cons.1 hx with rfl | hx
      · exact hins.toKept.child hc (by omega) (by omega)
      · exact hcs x (mem_append_right _ (mem_cons_of_mem _ hx))
  have hkeeps := hins.toKept.toKeeps.context P Q
  obtain ⟨hready,hkept⟩ := kept_inner ht hr hg.1 hg.2.1 hg.2.2.1 hg.2.2.2 (by simp) hchildren
    (hk.trans hkeeps)
  have hflat' : flat (PNode.mk g (P ++ c' :: Q)).refresh = flatOf P ++ (flat c' ++ flatOf Q) := by
    rw [flat, leaves_refresh, ← flat, hready.flat_eq, flatOf_append, flatOf_cons]
  simp only [length_append, length_cons] at hlow hhigh
  refine ⟨hkept,?_,?_,?_,?_,?_,?_,?_⟩
  · rw [numKeys_refresh, hr.numKeys_inner, hready.numKeys_inner, length_append, length_cons]
    omega
  · rw [numKeys_refresh, hr.numKeys_inner, hready.numKeys_inner, length_append, length_cons]
    omega
  · rw [hr.flat_eq, hflat, hins.before]
    simp
  · rw [hflat', hins.after]
    simp
  · exact forall_mem_append.2 ⟨hP,hins.left⟩
  · exact forall_mem_append.2 ⟨hins.right,hQ⟩
  · have hh := hins.hinted
    cases hint with
    | link l =>
      cases B with
      | nil => cases hh
      | cons b B => exact hh
    | leaf next =>
      obtain ⟨L,l,M,heq,hnext,hM⟩ := hh
      refine ⟨leavesOf P ++ L,l,M ++ leavesOf Q,?_,hnext,?_⟩
      · rw [leaves_refresh, hready.leaves_eq, leavesOf_append, leavesOf_cons, heq]
        simp
      · rw [flatMap_append, hM]
        rfl

theorem splitChild_spec (ht : 2 ≤ t)
    (hr : Ready t (h + 1) f (P ++ c :: Q)) (hfull : c.numKeys = 2 * t - 1) (j : Nat) :
    ∃ g l r e es, splitChild t (.mk f (P ++ c :: Q)) P.length j = some (.mk g (P ++ l :: r :: Q)) ∧
      (g.id = f.id ∧ g.parent = f.parent ∧ g.isLeaf = f.isLeaf ∧ g.entries = f.entries) ∧
      g.separators[P.length]?.join = some e.key ∧ flat r = e :: es ∧
      (∀ x ∈ P ++ l :: r :: Q, Child t h f.id x) ∧ l.numKeys < 2 * t - 1 ∧ r.numKeys < 2 * t - 1 ∧
      Keeps [j] (P ++ c :: Q) (P ++ l :: r :: Q) ∧ flat c = flat l ++ flat r ∧
      WF t (h + 1) (.mk g (P ++ l :: r :: Q)) := by
  have hc := hr.children c (mem_append_right _ mem_cons_self)
  obtain ⟨hl,hrt,hnl,hnr,-,hmoves⟩ := split_spec ht hc.wf hc.parent hfull j
  obtain ⟨e,es,he⟩ := exists_cons_of_ne_nil (hrt.flat_ne_nil ht)
  have hinner := hr.isLeaf
  have hall : ∀ x ∈ P ++ splitLeft t j c :: splitRight t j (some f.id) c :: Q, Child t h f.id x := by
    intro x hx
    simp only [mem_append, mem_cons] at hx
    rcases hx with hx | rfl | rfl | hx
    · exact hr.children x (mem_append_left _ hx)
    · exact hl
    · exact hrt
    · exact hr.children x (mem_append_right _ (mem_cons_of_mem _ hx))
  have hwf := (Ready.mk hr.isLeaf nofun (fun _ => ⟨(hr.inner (by simp)).1,by simp⟩) hall).refresh ht
  rw [refresh, if_neg (by simp [hinner])] at hwf
  refine ⟨_,splitLeft t j c,splitRight t j (some f.id) c,e,es,?_,?_,?_,he,
    hall,hnl,hnr,hmoves.toKeeps.context P Q,by simpa using hmoves.flat.symm,hwf⟩
  · simp only [splitChild, children_mk, getElem?_mid rfl, Option.bind_eq_bind,
      Option.bind_some, set_mid rfl, insertIdx_mid_succ rfl, fields_mk, refresh,
      hinner]
    rfl
  · exact ⟨rfl,rfl,rfl,rfl⟩
  · have hget : (P ++ splitLeft t j c :: splitRight t j (some f.id) c :: Q).tail[P.length]? =
        some (splitRight t j (some f.id) c) := by
      rw [getElem?_tail, getElem?_mid_succ rfl]
    rw [getElem?_map, hget, Option.map_some, hrt.wf.firstKey_eq, minKey, he]
    rfl

variable [TransCmp cmp]

/-- The descent finds the place of an absent key, and the hint it hands back is about the entries
after that place.  The nodes of the pool are taken in the order of their names. -/
theorem insertInto_spec (ht : 2 ≤ t) (entry : Entry K V) {fuel : Nat} (hfuel : h < fuel) (b : Nat)
    (hwf : WF t h n) (hnot : n.numKeys < 2 * t - 1)
    (hord : Ordered Entry.key cmp (flat n)) (habsent : ∀ e ∈ flat n, cmp e.key entry.key ≠ .eq) :
    ∃ used ≤ h, ∃ A B hint n',
      Inserted cmp t h entry (range' b used) A B hint n n' ∧ ∀ count, used ≤ count →
        insertInto cmp t entry fuel n (range' b count) =
          some (n', range' (b + used) (count - used), hint) := by
  induction fuel generalizing n h b with
  | zero => omega
  | succ fuel ih =>
    obtain ⟨f,cs⟩ := n
    have hr := hwf.ready
    cases h with
    | zero =>
      obtain rfl := hr.leaf rfl
      have hleaf := hr.isLeaf
      rw [hr.flat_leaf] at hord habsent
      obtain ⟨A,B,hes,hA,hB | ⟨e,B,rfl,he,-⟩⟩ := hord.cut entry.key
      · obtain ⟨hready,hkeeps⟩ := hr.entries (A ++ entry :: B)
        have hbound := lowerBound_append hA hB.not_lt
        refine ⟨0,le_rfl,A,B,hintAt f.next B.head?,
          (PNode.mk { f with entries := A ++ entry :: B } []).refresh,
          ⟨⟨hkeeps.refresh,hready.refresh ht,by simp,by simp⟩,?_,?_,?_,?_,hA,hB,?_⟩,?_⟩
        · rw [numKeys_refresh, hready.numKeys_leaf, hr.numKeys_leaf, hes]
          simp
        · rw [numKeys_refresh, hready.numKeys_leaf, hr.numKeys_leaf, hes]
          simp only [length_append, length_cons]
          omega
        · rw [hr.flat_leaf, hes]
        · rw [flat, leaves_refresh, ← flat, hready.flat_leaf]
        · cases B with
          | nil => exact ⟨[],_,[],by rw [leaves_refresh, hready.leaves_leaf]; rfl,rfl,rfl⟩
          | cons e B => exact rfl
        · intro count _
          simp only [insertInto, hleaf, hes, hbound, insertIdx_mid rfl]
          rw [getElem?_append_right (Nat.le_refl _), Nat.sub_self, head?_eq_getElem?]
          rfl
      · exact absurd he (habsent e (by rw [hes]; simp))
    | succ h =>
      obtain ⟨P,c,Q,rfl,hindex,hP,hQ,hc,hordc,hflat⟩ := hwf.descend ht hord entry.key
      have hinner := hr.isLeaf
      have hinside : ∀ x ∈ flat c, cmp x.key entry.key ≠ .eq := fun x hx =>
        habsent x (by rw [hflat]; simp [hx])
      rw [hr.flat_eq] at hflat
      by_cases hfull : c.numKeys = 2 * t-1
      · -- the child is full: split it, then descend on the side of the new separator
        obtain ⟨g,l,r,e,es,hsplit,hg,hsep,he,hall,hnl,hnr,hk,hcut,-⟩ :=
          splitChild_spec ht hr hfull b
        have hl := hall l (by simp)
        have hrt := hall r (by simp)
        rw [hcut] at hordc hinside
        by_cases hlt : cmp entry.key e.key = .lt
        · obtain ⟨used,hused,A,B,hint,l',hins,hrun⟩ := ih (by omega) (b + 1) hl.wf hnl
            hordc.append.1 (fun x hx => hinside x (mem_append_left _ hx))
          have hQ' : After Entry.key cmp entry.key (flatOf (r :: Q)) := by
            rw [he] at hordc
            rw [flatOf_cons, he]
            refine forall_mem_append.2 ⟨forall_mem_cons.2 ⟨hlt,fun x hx => ?_⟩,hQ⟩
            exact TransCmp.lt_trans hlt ((ordered_mid.1 hordc).2.2.2 x hx)
          refine ⟨used+1,by omega,_,_,hint,_,hins.below ht hr hg hall hk (by
            rw [hflat, hcut, flatOf_cons, append_assoc]) hnl hP hQ' (by simp) (by simp; omega),?_⟩
          intro count hcount
          obtain ⟨count,rfl⟩ : ∃ k, count = k + 1 := ⟨count - 1,by omega⟩
          have hstep := hrun count (by omega)
          have hparent : l'.fields.parent = some g.id := by rw [hins.parent, hl.parent, hg.1]
          simp only [insertInto, hinner, if_false, hindex, Option.bind_eq_bind, Option.bind_some,
            getElem?_mid (rfl), hfull, range'_succ, poolTake, hsplit,
            fields_mk, hsep, hlt, ne_eq, not_true, children_mk, hstep, putBack, hparent,
            set_mid (rfl)]
          rw [Nat.add_right_comm, Nat.add_sub_add_right]
          rfl
        · obtain ⟨used,hused,A,B,hint,r',hins,hrun⟩ := ih (by omega) (b + 1) hrt.wf hnr
            hordc.append.2 (fun x hx => hinside x (mem_append_right _ hx))
          have hle : ∀ x, cmp x e.key = .lt → cmp x entry.key = .lt := by
            intro x hx
            cases hcmp : cmp entry.key e.key with
            | lt => exact absurd hcmp hlt
            | eq => exact TransCmp.lt_of_lt_of_eq hx (OrientedCmp.eq_symm hcmp)
            | gt => exact TransCmp.lt_trans hx (OrientedCmp.lt_of_gt hcmp)
          have hP' : Before Entry.key cmp (flatOf (P ++ [l])) entry.key := by
            rw [he] at hordc
            rw [flatOf_append, flatOf_cons, flatOf_nil, append_nil]
            exact forall_mem_append.2 ⟨hP,fun x hx =>
              hle _ ((ordered_mid.1 hordc).2.2.1 x hx)⟩
          rw [append_cons P l] at hall hk
          refine ⟨used+1,by omega,_,_,hint,_,hins.below ht hr hg hall hk (by
            rw [hflat, hcut]
            simp) hnr hP' hQ (by simp) (by simp; omega),?_⟩
          intro count hcount
          obtain ⟨count,rfl⟩ : ∃ k, count = k + 1 := ⟨count - 1,by omega⟩
          have hstep := hrun count (by omega)
          have hparent : r'.fields.parent = some g.id := by rw [hins.parent, hrt.parent, hg.1]
          rw [← append_cons P l]
          simp only [insertInto, hinner, hindex, Option.bind_eq_bind, Option.bind_some,
            getElem?_mid (rfl), hfull, if_true, range'_succ, poolTake,
            hsplit, fields_mk, hsep, hlt, ne_eq, not_false_eq_true, children_mk,
            getElem?_mid_succ (rfl), hstep, putBack, hparent,
            set_mid_succ (rfl)]
          rw [Nat.add_right_comm, Nat.add_sub_add_right]
          rfl
      · have hlt : c.numKeys < 2 * t-1 := by
          have := hc.high
          omega
        obtain ⟨used,hused,A,B,hint,c',hins,hrun⟩ := ih (by omega) b hc.wf hlt hordc hinside
        have hk : Keeps [] (P ++ c :: Q) (P ++ c :: Q) := ⟨Evolves.rfl,fun i => Nat.le_add_right _ _⟩
        refine ⟨used,by omega,_,_,hint,_,hins.below ht hr ⟨rfl,rfl,rfl,rfl⟩ hr.children hk
          hflat hlt hP hQ le_rfl (Nat.le_succ _),?_⟩
        intro count hcount
        have hparent : c'.fields.parent = some f.id := by rw [hins.parent, hc.parent]
        simp only [insertInto, hinner, hindex, Option.bind_eq_bind, Option.bind_some,
          getElem?_mid (rfl), hfull, hrun count hcount, putBack, fields_mk,
          hparent, children_mk, set_mid (rfl)]
        rfl

end Insert

end Salts.Cstl.BPlus
