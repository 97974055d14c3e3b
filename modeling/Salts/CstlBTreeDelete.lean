import Salts.CstlBTree

/-! Deletion from a B-tree. -/

namespace Salts.Cstl.BTree

open Std Node
open SortedMap (Ordered Before After getElem?_mid getElem?_mid_succ set_mid set_mid_succ
  eraseIdx_mid eraseIdx_mid_succ ordered_mid)
open List (append_cons length_append length_cons length_eq_zero_iff mem_append nil_append)
open Option (bind_eq_bind bind_some some)

variable {K V : Type} {cmp : K → K → Ordering} {t h fuel : Nat} {key : K} {l l₁ l₂ : Bool}
  {n c c' : BNode K V} {A B X es es' es₁ L : List (Entry K V)}
   {s x e : Entry K V} {P Q C D cs cs' cs₁ : List (BNode K V)}

theorem lastEntry_spec (ht : 2 ≤ t) (hfuel : h < fuel) (hwf : WF t h n) (hpos : 1 ≤ n.numKeys) :
    ∃ L x, lastEntry fuel n = some x ∧ inorder n = L ++ [x] := by
  induction fuel generalizing n h with
  | zero => omega
  | succ fuel ih =>
    obtain ⟨l,es,cs⟩ := n
    cases h with
    | zero =>
      obtain ⟨rfl,hcs⟩ := hwf
      rw [List.length_eq_zero_iff.1 hcs]
      have hne : es ≠ [] := List.length_pos_iff.1 hpos
      exact ⟨es.dropLast,es.getLast hne,by simp [lastEntry, List.getLast?_eq_getLast_of_ne_nil hne],
        (List.dropLast_append_getLast hne).symm⟩
    | succ h =>
      obtain rfl : l = false := hwf.1
      have har := hwf.arity
      rw [← List.append_nil es] at har
      obtain ⟨P,c,Q,rfl,hP,hQ⟩ := har.child
      obtain rfl := List.length_eq_zero_iff.1 hQ
      obtain ⟨L,x,hlast,hL⟩ := ih (by omega) hwf.child.1 (by have := hwf.child.2.1; omega)
      refine ⟨lead P es ++ L,x,?_,?_⟩
      · simp only [lastEntry, Bool.false_eq_true, if_false, getElem?_mid hP]
        exact hlast
      · have hfocus := inorder_focus (l := false) (B := []) (Q := []) c hP
        rw [List.append_nil] at hfocus
        rw [hfocus, hL]
        simp [weave]

theorem firstEntry_spec (ht : 2 ≤ t) (hfuel : h < fuel) (hwf : WF t h n) (hpos : 1 ≤ n.numKeys) :
    ∃ x L, firstEntry fuel n = some x ∧ inorder n = x :: L := by
  induction fuel generalizing n h with
  | zero => omega
  | succ fuel ih =>
    obtain ⟨l,es,cs⟩ := n
    cases h with
    | zero =>
      obtain ⟨rfl,hcs⟩ := hwf
      rw [length_eq_zero_iff.1 hcs]
      cases es with
      | nil => cases hpos
      | cons e es => exact ⟨e,es,rfl,by rw [inorder]⟩
    | succ h =>
      obtain rfl : l = false := hwf.1
      obtain ⟨P,c,Q,rfl,hP,-⟩ := Arity.child (A := []) hwf.arity
      obtain rfl := length_eq_zero_iff.1 hP
      obtain ⟨x,L,hfirst,hL⟩ := ih (by omega) hwf.child.1 (by have := hwf.child.2.1; omega)
      refine ⟨x,L ++ weave es Q,?_,?_⟩
      · exact hfirst
      · simp [inorder, hL]

section

variable (hP : P.length = A.length) (hC : Arity h X.length C.length) (hD : Arity h 0 D.length)

include hP hC hD

theorem borrowPrevious_eq :
    borrowPrevious (.mk l (A ++ s :: B) (P ++ .mk l₁ (X ++ [x]) (C ++ D) :: .mk l₂ es cs :: Q))
        (A.length + 1) =
      some (.mk l (A ++ x :: B) (P ++ .mk l₁ X C :: .mk l₂ (s :: es) (D ++ cs) :: Q)) := by
  have hlast : (C ++ D).getLast?.toList = D ∧ (C ++ D).dropLast = C := by
    cases h with
    | zero =>
      rw [List.length_eq_zero_iff.1 hC, List.length_eq_zero_iff.1 hD]
      exact ⟨rfl,rfl⟩
    | succ h =>
      obtain ⟨d,rfl⟩ := List.length_eq_one_iff.1 hD
      simp
  simp only [borrowPrevious, getElem?_mid_succ hP, Nat.add_sub_cancel,
    getElem?_mid hP, getElem?_mid (rfl), bind_eq_bind,
    bind_some, List.getLast?_concat, List.dropLast_concat, hlast,
    set_mid_succ hP, set_mid hP, set_mid (rfl)]
  rfl

theorem borrowNext_eq :
    borrowNext (.mk l (A ++ s :: B) (P ++ .mk l₁ es cs :: .mk l₂ (x :: X) (D ++ C) :: Q)) A.length =
      some (.mk l (A ++ x :: B) (P ++ .mk l₁ (es ++ [s]) (cs ++ D) :: .mk l₂ X C :: Q)) := by
  have hfirst : (D ++ C).head?.toList = D ∧ (D ++ C).tail = C := by
    cases h with
    | zero =>
      rw [length_eq_zero_iff.1 hC, length_eq_zero_iff.1 hD]
      exact ⟨rfl,rfl⟩
    | succ h =>
      obtain ⟨d,rfl⟩ := List.length_eq_one_iff.1 hD
      exact ⟨rfl,rfl⟩
  simp only [borrowNext, getElem?_mid_succ hP, getElem?_mid hP,
    getElem?_mid (rfl), bind_eq_bind, bind_some, hfirst,
    set_mid_succ hP, set_mid hP, set_mid (rfl)]
  rfl

end

theorem mergeChildren_eq (hP : P.length = A.length) :
    mergeChildren (.mk l (A ++ s :: B) (P ++ .mk l₁ es cs :: .mk l₂ es' cs' :: Q)) A.length =
      some (.mk l (A ++ B) (P ++ .mk l₁ (es ++ s :: es') (cs ++ cs') :: Q),
        .mk l₁ (es ++ s :: es') (cs ++ cs')) := by
  simp only [mergeChildren, getElem?_mid_succ hP, getElem?_mid hP,
    getElem?_mid (rfl), set_mid hP,
    eraseIdx_mid (rfl), eraseIdx_mid_succ hP]
  rfl

structure Deleted (cmp : K → K → Ordering) (t h : Nat) (key : K) (n n' : BNode K V)
    (e : Entry K V) : Prop where
  wf : WF t h n'
  low : n.numKeys ≤ n'.numKeys + 1
  high : n'.numKeys ≤ n.numKeys
  key : cmp e.key key = .eq
  lists : ∃ A B, inorder n = A ++ e :: B ∧ inorder n' = A ++ B

def DeletesAt (cmp : K → K → Ordering) (t h : Nat) (key : K) (fuel : Nat) : Prop :=
  ∀ n : BNode K V, WF t h n → 1 ≤ n.numKeys → Ordered Entry.key cmp (inorder n) →
    (∃ e ∈ inorder n, cmp e.key key = .eq) →
    ∃ n' e, deleteStructural cmp t fuel n key = some (n', e) ∧ Deleted cmp t h key n n' e

structure Has (cmp : K → K → Ordering) (t h : Nat) (key : K) (n : BNode K V) : Prop where
  wf : WF t h n
  ordered : Ordered Entry.key cmp (inorder n)
  key : ∃ e ∈ inorder n, cmp e.key key = .eq

def Deletes (cmp : K → K → Ordering) (t h : Nat) (key : K) (n : BNode K V)
    (result : Option (BNode K V × Entry K V)) : Prop :=
  ∃ n' e, result = some (n', e) ∧ Deleted cmp t h key n n' e

theorem Deleted.fits (hdel : Deleted cmp t h key c c' e)
    (hfits : Fits t h c) (hc : t ≤ c.numKeys) : Fits t h c' := by
  have hlow := hdel.low
  have hhigh := hdel.high
  have hmax := hfits.2.2
  exact ⟨hdel.wf,by omega,by omega⟩

theorem Deleted.below (hdel : Deleted cmp t h key c c' e)
    (hwf : WF t (h + 1) (.mk l (A ++ B) (P ++ c :: Q))) (hc : t ≤ c.numKeys)
    (hP : P.length = A.length) (hn : inorder n = inorder (.mk l (A ++ B) (P ++ c :: Q)))
    (hlow : n.numKeys ≤ (A ++ B).length + 1) (hhigh : (A ++ B).length ≤ n.numKeys) :
    Deleted cmp t (h + 1) key n (.mk l (A ++ B) (P ++ c' :: Q)) e := by
  obtain ⟨X,Y,hX,hX'⟩ := hdel.lists
  refine ⟨hwf.with_child (hdel.fits hwf.child hc),hlow,hhigh,hdel.key,
    lead P A ++ X,Y ++ weave B Q,?_,?_⟩
  · rw [hn, inorder_focus c hP, hX]
    simp
  · rw [inorder_focus c' hP, hX']
    simp

theorem deleted_merged (ht : 1 ≤ t) (hP : P.length = A.length)
    (hn : n = .mk l (A ++ s :: B) (P ++ .mk l₁ es cs :: .mk l₂ es' cs' :: Q))
    (hes : es.length = t - 1) (hes' : es'.length = t - 1) (hwf : WF t (h + 1) n)
    (hord : Ordered Entry.key cmp (inorder n))
    (hkey : ∃ e ∈ inorder (.mk l₁ es cs) ++ s :: inorder (.mk l₂ es' cs'), cmp e.key key = .eq)
    (ih : DeletesAt (V := V) cmp t h key fuel) :
    Deletes cmp t (h + 1) key n (do
      let (node, merged) ← mergeChildren n A.length
      return withChild node A.length (← deleteStructural cmp t fuel merged key)) := by
  subst hn
  have hleft := hwf.child
  have hright := hwf.second
  have hmerged := hleft.1.join (m := s) hright.1
  have hlen : (es ++ s :: es').length = 2 * t-1 := by
    rw [length_append, length_cons]
    omega
  have hjoin : inorder (.mk l₁ (es ++ s :: es') (cs ++ cs')) =
      inorder (.mk l₁ es cs) ++ s :: inorder (.mk l₂ es' cs') := by
    rw [inorder_join hleft.1.arity hright.1.arity, inorder_flag l₁ l₂ es' cs']
  have hsame : inorder (.mk l (A ++ s :: B) (P ++ .mk l₁ es cs :: .mk l₂ es' cs' :: Q)) =
      inorder (.mk l (A ++ B) (P ++ .mk l₁ (es ++ s :: es') (cs ++ cs') :: Q)) := by
    rw [inorder_pair _ _ hP, inorder_focus _ hP, hjoin]
    simp
  have hwf' : WF t (h+1) (.mk l (A ++ B) (P ++ .mk l₁ (es ++ s :: es') (cs ++ cs') :: Q)) := by
    obtain ⟨hl,har,hcs⟩ := wf_iff.1 hwf
    refine wf_iff.2 ⟨hl,?_,fun c hc => ?_⟩
    · simp only [Arity, length_append, length_cons] at har ⊢
      omega
    · simp only [mem_append, List.mem_cons] at hc hcs
      rcases hc with hc | rfl | hc
      · exact hcs c (.inl hc)
      · exact ⟨hmerged,by show t-1 ≤ (es ++ s :: es').length; omega,by
          show (es ++ s :: es').length ≤ 2 * t-1; omega⟩
      · exact hcs c (.inr (.inr (.inr hc)))
  have hord' := hsame ▸ hord
  rw [inorder_focus _ hP] at hord'
  obtain ⟨c',e,hdelete,hdeleted⟩ := ih (.mk l₁ (es ++ s :: es') (cs ++ cs')) hmerged
    (by show 1 ≤ (es ++ s :: es').length; omega) hord'.append.2.append.1 (by rwa [hjoin])
  refine ⟨.mk l (A ++ B) (P ++ c' :: Q),e,?_,hdeleted.below hwf'
    (by show t ≤ (es ++ s :: es').length; omega) hP hsame ?_ ?_⟩
  · simp only [mergeChildren_eq hP, hdelete, bind_eq_bind, bind_some, withChild,
      children, set_mid hP]
    rfl
  · simp only [numKeys_mk, length_append, length_cons]
    omega
  · simp only [numKeys_mk, length_append, length_cons]
    omega

variable [TransCmp cmp]

theorem delete_descend (ht : 1 ≤ t) (hP : P.length = A.length) (hA : Before Entry.key cmp A key)
    (hB : After Entry.key cmp key B) (hc : t ≤ c.numKeys) :
    deleteStructural cmp t (fuel + 1) (.mk l (A ++ B) (P ++ c :: Q)) key =
      (deleteStructural cmp t fuel c key).map fun (c', e) =>
        (.mk l (A ++ B) (P ++ c' :: Q), e) := by
  obtain ⟨hbound,hmatch⟩ := bound_absent hA hB
  have hne : ¬c.numKeys = t-1 := by omega
  simp only [deleteStructural, hbound, hmatch, getElem?_mid hP, bind_eq_bind,
    bind_some, hne]
  cases deleteStructural cmp t fuel c key with
  | none => rfl
  | some result =>
    simp only [withChild, children, set_mid hP]
    rfl

theorem mem_child (hord : Ordered Entry.key cmp (inorder (.mk l (A ++ B) (P ++ c :: Q))))
    (hP : P.length = A.length) (hA : Before Entry.key cmp A key) (hB : After Entry.key cmp key B)
    (hkey : ∃ e ∈ inorder (.mk l (A ++ B) (P ++ c :: Q)), cmp e.key key = .eq) :
    ∃ e ∈ inorder c, cmp e.key key = .eq := by
  obtain ⟨-,hlead,hweave⟩ := sides hord hP hA hB
  obtain ⟨e,he,heq⟩ := hkey
  rw [inorder_focus c hP, mem_append, mem_append] at he
  rcases he with he | he | he
  · exact absurd heq (hlead.ne e he)
  · exact ⟨e,he,heq⟩
  · exact absurd heq (hweave.ne e he)

theorem deleted_descend (ht : 1 ≤ t) (hP : P.length = A.length) (hA : Before Entry.key cmp A key)
    (hB : After Entry.key cmp key B) (hc : t ≤ c.numKeys)
    (hwf : WF t (h + 1) (.mk l (A ++ B) (P ++ c :: Q)))
    (hn : inorder n = inorder (.mk l (A ++ B) (P ++ c :: Q))) (hnum : n.numKeys = (A ++ B).length)
    (hhas : Has cmp t (h + 1) key n) (ih : DeletesAt (V := V) cmp t h key fuel) :
    Deletes cmp t (h + 1) key n
      (deleteStructural cmp t (fuel + 1) (.mk l (A ++ B) (P ++ c :: Q)) key) := by
  obtain ⟨-,hord,hkey⟩ := hhas
  rw [hn] at hord hkey
  obtain ⟨c',e',hdelete,hdeleted⟩ := ih c hwf.child.1 (by omega) (sides hord hP hA hB).1
    (mem_child hord hP hA hB hkey)
  refine ⟨_,_,?_,hdeleted.below hwf hc hP hn (by omega) (by omega)⟩
  rw [delete_descend ht hP hA hB hc, hdelete]
  rfl

section

variable (ht : 2 ≤ t) (hP : P.length = A.length)

include ht hP

theorem deleted_borrowed_previous (hA : Before Entry.key cmp (A ++ [s]) key)
    (hB : After Entry.key cmp key B) (hspare : t ≤ es₁.length) (hes : es.length = t - 1)
    (hn : n = .mk l (A ++ s :: B) (P ++ .mk l₁ es₁ cs₁ :: .mk l₂ es cs :: Q))
    (hhas : Has cmp t (h + 1) key n) (ih : DeletesAt (V := V) cmp t h key fuel) :
    Deletes cmp t (h + 1) key n ((borrowPrevious n (A.length + 1)).bind fun n =>
      deleteStructural cmp t (fuel + 1) n key) := by
  subst hn
  have hwf := hhas.wf
  obtain ⟨X,x,rfl⟩ := exists_concat (show 0 < es₁.length by omega)
  obtain ⟨C,D,rfl,hC,hD⟩ := hwf.child.1.arity.cut
  have hsibling := hwf.child
  have hchild := hwf.second
  obtain rfl : l₁ = l₂ := (wf_iff.1 hsibling.1).1.trans (wf_iff.1 hchild.1).1.symm
  obtain ⟨hwfX,hwfD⟩ := hsibling.1.halves hC hD
  have hmax := hsibling.2.2
  simp only [numKeys_mk, length_append] at hmax hspare
  have hwf' := hwf.with_pair x (y := .mk l₁ (s :: es) (D ++ cs))
    ⟨hwfX,by simp; omega,by simp; omega⟩
    ⟨hwfD.join hchild.1,by simp; omega,by simp; omega⟩
  have hsame : inorder (.mk l (A ++ s :: B)
        (P ++ .mk l₁ (X ++ [x]) (C ++ D) :: .mk l₁ es cs :: Q)) =
      inorder (.mk l (A ++ x :: B) (P ++ .mk l₁ X C :: .mk l₁ (s :: es) (D ++ cs) :: Q)) := by
    have hrest := inorder_join (l := l₁) (m := s) hD hchild.1.arity
    rw [nil_append] at hrest
    rw [inorder_pair _ _ hP, inorder_pair _ _ hP, inorder_join hC hD, hrest]
    simp
  have hbefore : Before Entry.key cmp (A ++ [x]) key := by
    have hall := hhas.ordered
    rw [inorder_pair _ _ hP, ← List.append_assoc] at hall
    have hs := (ordered_mid.1 hall).2.2.1
    rw [inorder_join hC hD] at hs
    refine List.forall_mem_append.2 ⟨(List.forall_mem_append.1 hA).1,?_⟩
    rw [List.forall_mem_singleton]
    exact TransCmp.lt_trans (hs x (by simp)) (hA s (by simp))
  rw [borrowPrevious_eq hP hC hD]
  rw [append_cons P (.mk l₁ X C), append_cons A x] at hwf' hsame ⊢
  exact deleted_descend (by omega) (by simp [hP]) hbefore hB (by simp; omega)
    hwf' hsame (by simp) hhas ih

theorem deleted_borrowed_next (hA : Before Entry.key cmp A key)
    (hB : After Entry.key cmp key (s :: B)) (hspare : t ≤ es₁.length) (hes : es.length = t - 1)
    (hn : n = .mk l (A ++ s :: B) (P ++ .mk l₂ es cs :: .mk l₁ es₁ cs₁ :: Q))
    (hhas : Has cmp t (h + 1) key n) (ih : DeletesAt (V := V) cmp t h key fuel) :
    Deletes cmp t (h + 1) key n ((borrowNext n A.length).bind fun n =>
      deleteStructural cmp t (fuel + 1) n key) := by
  subst hn
  have hwf := hhas.wf
  have hchild := hwf.child
  have hsibling := hwf.second
  cases es₁ with
  | nil => exact absurd hspare (by simp; omega)
  | cons x X =>
    obtain ⟨D,C,rfl,hD,hC⟩ := Arity.cut (A := []) hsibling.1.arity
    obtain rfl : l₁ = l₂ := (wf_iff.1 hsibling.1).1.trans (wf_iff.1 hchild.1).1.symm
    obtain ⟨hwfD,hwfX⟩ := hsibling.1.halves hD hC
    have hmax := hsibling.2.2
    simp only [numKeys_mk, length_cons] at hmax hspare
    have hwf' := hwf.with_pair x (x := .mk l₁ (es ++ [s]) (cs ++ D))
      ⟨hchild.1.join hwfD,by simp; omega,by simp; omega⟩
      ⟨hwfX,by simp; omega,by simp; omega⟩
    have hrest := inorder_join (l := l₁) (A := []) (m := x) hD hC
    rw [nil_append] at hrest
    have hsame : inorder (.mk l (A ++ s :: B)
          (P ++ .mk l₁ es cs :: .mk l₁ (x :: X) (D ++ C) :: Q)) =
        inorder (.mk l (A ++ x :: B) (P ++ .mk l₁ (es ++ [s]) (cs ++ D) :: .mk l₁ X C :: Q)) := by
      rw [inorder_pair _ _ hP, inorder_pair _ _ hP, hrest, inorder_join (B := []) hchild.1.arity hD]
      simp
    have hafter : After Entry.key cmp key (x :: B) := by
      have hall := hhas.ordered
      rw [inorder_pair _ _ hP, ← List.append_assoc] at hall
      have hs := (ordered_mid.1 hall).2.2.2
      rw [hrest] at hs
      refine List.forall_mem_cons.2 ⟨?_,(List.forall_mem_cons.1 hB).2⟩
      exact TransCmp.lt_trans (hB s List.mem_cons_self) (hs x (by simp))
    rw [borrowNext_eq hP hC hD]
    exact deleted_descend (by omega) hP hA hafter (by simp; omega)
      hwf' hsame (by simp) hhas ih

/-- The deletion of a key below a child without a key to spare: it borrows one from a neighbour or
is merged with one. -/
theorem deleted_short (hQ : Q.length = B.length)
    (hA : Before Entry.key cmp A key) (hB : After Entry.key cmp key B) (hc : c.numKeys = t - 1)
    (hpos : 1 ≤ (A ++ B).length) (hhas : Has cmp t (h + 1) key (.mk l (A ++ B) (P ++ c :: Q)))
    (ih : ∀ f ≥ fuel, DeletesAt (V := V) cmp t h key f) :
    Deletes cmp t (h + 1) key (.mk l (A ++ B) (P ++ c :: Q))
      (deleteStructural cmp t (fuel + 2) (.mk l (A ++ B) (P ++ c :: Q)) key) := by
  obtain ⟨hbound,hmatch⟩ := bound_absent hA hB
  obtain ⟨e,he,heq⟩ := mem_child hhas.ordered hP hA hB hhas.key
  simp only [deleteStructural, hbound, hmatch, getElem?_mid hP, bind_eq_bind,
    bind_some, hc, if_true]
  obtain ⟨l₂,es,cs⟩ := c
  have hes : es.length = t-1 := hc
  by_cases hprev : 0 < A.length ∧ ∃ left ∈ (P ++ .mk l₂ es cs :: Q)[A.length-1]?, left.numKeys ≥ t
  · -- the neighbour before has a key to spare
    rw [if_pos hprev]
    obtain ⟨hlt,d,hd,hspare⟩ := hprev
    obtain ⟨A,s,rfl⟩ := exists_concat hlt
    obtain ⟨P,d',rfl⟩ := exists_concat (hP ▸ hlt)
    have hPA : P.length = A.length := by simpa using hP
    rw [← append_cons P] at hd hhas ⊢
    rw [← append_cons A] at hhas ⊢
    rw [length_append, List.length_singleton, Nat.add_sub_cancel, getElem?_mid hPA] at hd
    obtain rfl := some.inj hd
    obtain ⟨l₁,es₁,cs₁⟩ := d'
    rw [length_append]
    exact deleted_borrowed_previous ht hPA hA hB hspare hes rfl hhas (ih fuel le_rfl)
  rw [if_neg hprev]
  by_cases hnext : A.length < (A ++ B).length ∧
      ∃ right ∈ (P ++ .mk l₂ es cs :: Q)[A.length+1]?, right.numKeys ≥ t
  · -- the neighbour after has a key to spare
    rw [if_pos hnext]
    obtain ⟨hlt,d,hd,hspare⟩ := hnext
    cases B with
    | nil => simp at hlt
    | cons s B =>
      cases Q with
      | nil => cases hQ
      | cons d' Q =>
        rw [getElem?_mid_succ hP] at hd
        obtain rfl := some.inj hd
        obtain ⟨l₁,es₁,cs₁⟩ := d'
        exact deleted_borrowed_next ht hP hA hB hspare hes rfl hhas (ih fuel le_rfl)
  rw [if_neg hnext]
  -- both neighbours are at their minimum
  cases B with
  | cons s B =>
    have hlt : A.length < (A ++ s :: B).length := by simp
    cases Q with
    | nil => cases hQ
    | cons d Q =>
      rw [getElem?_mid_succ hP] at hnext
      obtain ⟨l₁,es₁,cs₁⟩ := d
      have hmin : es₁.length = t-1 := by
        have hlow : t-1 ≤ es₁.length := hhas.wf.second.2.1
        by_contra hne
        exact hnext ⟨hlt,_,rfl,show t ≤ es₁.length by omega⟩
      simpa using deleted_merged (by omega) hP rfl hes hmin hhas.wf hhas.ordered
        ⟨e,List.mem_append_left _ he,heq⟩ (ih (fuel+1) (Nat.le_succ _))
  | nil =>
    rw [List.append_nil] at hpos
    obtain ⟨A,s,rfl⟩ := exists_concat hpos
    obtain ⟨P,d,rfl⟩ := exists_concat (hP ▸ hpos)
    have hPA : P.length = A.length := by simpa using hP
    rw [← append_cons P] at hprev hhas ⊢
    rw [← append_cons A] at hhas ⊢
    rw [length_append, List.length_singleton, Nat.add_sub_cancel, getElem?_mid hPA] at hprev
    obtain ⟨l₁,es₁,cs₁⟩ := d
    have hmin : es₁.length = t-1 := by
      have hlow : t-1 ≤ es₁.length := hhas.wf.child.2.1
      by_contra hne
      exact hprev ⟨by omega,_,rfl,show t ≤ es₁.length by omega⟩
    simpa using deleted_merged (by omega) hPA rfl hmin hes hhas.wf hhas.ordered
      ⟨e,List.mem_append_right _ (List.mem_cons_of_mem _ he),heq⟩ (ih (fuel+1) (Nat.le_succ _))

end

section

variable (hdel : Deleted cmp t h x.key c c' e) (hord : Ordered Entry.key cmp (inorder c))

include hdel hord

theorem Deleted.of_last (hL : inorder c = L ++ [x]) : inorder c' = L := by
  obtain ⟨X,Y,hX,hX'⟩ := hdel.lists
  obtain ⟨rfl,-,rfl⟩ := (hX ▸ hord).split_unique (hX.symm.trans hL) hdel.key
  rw [hX', List.append_nil]

theorem Deleted.of_first (hL : inorder c = x :: L) : inorder c' = L := by
  obtain ⟨X,Y,hX,hX'⟩ := hdel.lists
  obtain ⟨rfl,-,rfl⟩ := (hX ▸ hord).split_unique (hX.symm.trans (hL.trans (nil_append _).symm))
    hdel.key
  rw [hX', nil_append]

end

theorem delete_spec (ht : 2 ≤ t) (hfuel : 2 * h < fuel) (hwf : WF t h n) (hpos : 1 ≤ n.numKeys)
    (hord : Ordered Entry.key cmp (inorder n)) (hkey : ∃ e ∈ inorder n, cmp e.key key = .eq) :
    Deletes cmp t h key n (deleteStructural cmp t fuel n key) := by
  induction h generalizing n fuel key with
  | zero =>
    obtain ⟨l,es,cs⟩ := n
    obtain ⟨fuel,rfl⟩ : ∃ f, fuel = f + 1 := ⟨fuel - 1,by omega⟩
    obtain ⟨rfl,hcs⟩ := hwf
    obtain rfl := length_eq_zero_iff.1 hcs
    obtain ⟨A,hA,hbound,⟨e,B,rfl,he,hmatch⟩ | ⟨B,rfl,hB,hmatch⟩⟩ :=
      bound_cases (ordered_entries hord) key
    · refine ⟨.mk true (A ++ B) [],e,?_,⟨⟨rfl,rfl⟩,?_,?_,he,A,B,?_,?_⟩⟩
      · simp [deleteStructural, hbound, hmatch, eraseIdx_mid rfl]
      · simp; omega
      · simp
      · rw [inorder]
      · rw [inorder]
    · obtain ⟨e,he,heq⟩ := hkey
      rw [inorder, mem_append] at he
      exact absurd heq (he.elim (hA.ne e) (hB.ne e))
  | succ h ih =>
    obtain ⟨l,es,cs⟩ := n
    obtain ⟨fuel,rfl⟩ : ∃ f, fuel = f + 2 := ⟨fuel - 2,by omega⟩
    obtain rfl : l = false := hwf.1
    have hbelow : DeletesAt cmp t h key (fuel+1) := fun n => ih (by omega)
    obtain ⟨A,hA,hbound,⟨e,B,rfl,he,hmatch⟩ | ⟨B,rfl,hB,hmatch⟩⟩ :=
      bound_cases (ordered_entries hord) key
    · obtain ⟨P,c,Q,rfl,hP,hQ⟩ := hwf.arity.child
      cases Q with
      | nil => cases hQ
      | cons d Q =>
        have hc := hwf.child
        have hd := hwf.second
        have hord' := hord
        rw [inorder_pair c d hP] at hord'
        have hordc := hord'.append.2.append.1
        have hordd := (ordered_mid.1 hord'.append.2).2.1.append.1
        by_cases hleft : t ≤ c.numKeys
        · obtain ⟨L,x,hlast,hL⟩ := lastEntry_spec ht (show h < fuel + 1 by omega) hc.1 (by omega)
          obtain ⟨c',e',hdelete,hdel⟩ := ih (show 2 * h < fuel + 1 by omega) hc.1 (by omega) hordc
            ⟨x,by rw [hL]; simp,ReflCmp.compare_self⟩
          have hlist := hdel.of_last hordc hL
          refine ⟨.mk false (A ++ x :: B) (P ++ c' :: d :: Q),e,?_,
            hwf.with_pair x (hdel.fits hc hleft) hd,by simp,
            by simp,he,lead P A ++ (L ++ [x]),inorder d ++ weave B Q,?_,?_⟩
          · simp only [deleteStructural, hbound, hmatch, getElem?_mid hP,
              bind_eq_bind, bind_some, hleft, hlast, hdelete, set_mid hP,
              set_mid (rfl)]
            rfl
          · rw [inorder_pair c d hP, hL]
            simp
          · rw [inorder_pair c' d hP, hlist]
            simp
        · by_cases hright : t ≤ d.numKeys
          · obtain ⟨x,L,hfirst,hL⟩ := firstEntry_spec ht (show h < fuel+1 by omega) hd.1 (by omega)
            obtain ⟨d',e',hdelete,hdel⟩ := ih (show 2 * h < fuel + 1 by omega) hd.1 (by omega) hordd
              ⟨x,by rw [hL]; simp,ReflCmp.compare_self⟩
            have hlist := hdel.of_first hordd hL
            refine ⟨.mk false (A ++ x :: B) (P ++ c :: d' :: Q),e,?_,
              hwf.with_pair x hc (hdel.fits hd hright),by simp,
              by simp,he,lead P A ++ inorder c,
              x :: (L ++ weave B Q),?_,?_⟩
            · simp only [deleteStructural, hbound, hmatch, getElem?_mid hP,
                bind_eq_bind, bind_some, hleft, getElem?_mid_succ hP,
                hright, hfirst, hdelete, set_mid_succ hP,
                set_mid (rfl)]
              rfl
            · rw [inorder_pair c d hP, hL]
              simp
            · rw [inorder_pair c d' hP, hlist]
              simp
          · obtain ⟨l₁,es,cs⟩ := c
            obtain ⟨l₂,es',cs'⟩ := d
            have hlowc := hc.2.1
            have hlowd := hd.2.1
            simp only [numKeys_mk] at hleft hright hlowc hlowd
            simpa [deleteStructural, hbound, hmatch, getElem?_mid hP, getElem?_mid_succ hP, hleft, hright]
              using deleted_merged (by omega) hP rfl (show es.length = t-1 by omega)
                (show es'.length = t-1 by omega) hwf hord ⟨e,by simp,he⟩ hbelow
    · obtain ⟨P,c,Q,rfl,hP,hQ⟩ := hwf.arity.child
      have hc := hwf.child
      by_cases hmin : c.numKeys = t-1
      · exact deleted_short ht hP hQ hA hB hmin hpos ⟨hwf,hord,hkey⟩ fun f hf n => ih (by omega)
      have hspare : t ≤ c.numKeys := by
        have := hc.2.1
        omega
      exact deleted_descend (by omega) hP hA hB hspare hwf rfl rfl ⟨hwf,hord,hkey⟩ hbelow

end Salts.Cstl.BTree
