import Salts.CstlBTreeDelete

/-! Search and insertion in a B-tree. -/

namespace Salts.Cstl.BTree

open Std Node
open SortedMap (Ordered Before After getElem?_mid getElem?_mid_succ set_mid set_mid_succ
  insertIdx_mid insertIdx_mid_succ ordered_mid exists_mid_of_lt)
open Option (bind_eq_bind bind_some)

variable {K V : Type} {cmp : K → K → Ordering} {t h : Nat} {c n : BNode K V}

theorem full_cut (ht : 1 ≤ t) (hfull : c.numKeys = 2 * t - 1) :
    ∃ l X m Y cs, c = .mk l (X ++ m :: Y) cs ∧ X.length = t - 1 ∧ Y.length = t - 1 := by
  obtain ⟨l,es,cs⟩ := c
  have hfull : es.length = 2 * t-1 := hfull
  obtain ⟨X,m,Y,rfl,hX⟩ := exists_mid_of_lt (l := es) (n := t - 1) (by omega)
  rw [List.length_append, List.length_cons] at hfull
  exact ⟨l,X,m,Y,cs,rfl,hX,by omega⟩

variable {A B X Y : List (Entry K V)}

theorem splitChild_eq {l k : Bool} {m : Entry K V}
    {P Q C D : List (BNode K V)} (ht : 1 ≤ t) (hP : P.length = A.length) (hX : X.length = t - 1)
    (hY : Y.length = t - 1) (hC : Arity h X.length C.length) (hD : Arity h Y.length D.length) :
    splitChild t (.mk l (A ++ B) (P ++ .mk k (X ++ m :: Y) (C ++ D) :: Q)) A.length =
      some (.mk l (A ++ m :: B) (P ++ .mk k X C :: .mk k Y D :: Q)) := by
  have hdropX : (X ++ m :: Y).drop t = Y := by
    rw [show t = X.length+1 by omega]
    simp
  have hchildren : (C ++ D).take t = C ∧ ((C ++ D).drop t).take t = D := by
    cases h with
    | zero =>
      rw [List.length_eq_zero_iff.1 hC, List.length_eq_zero_iff.1 hD]
      simp
    | succ h =>
      simp only [Arity] at hC hD
      rw [List.take_left' (by omega), List.drop_left' (by omega)]
      exact ⟨rfl,List.take_of_length_le (by omega)⟩
  simp only [splitChild, getElem?_mid hP, bind_eq_bind, bind_some,
    getElem?_mid hX, set_mid hP, insertIdx_mid rfl, hchildren, hdropX,
    List.take_left' hX, insertIdx_mid_succ hP,
    List.take_of_length_le (show Y.length ≤ t-1 by omega)]
  rfl

structure Inserted (cmp : K → K → Ordering) (t h : Nat) (entry : Entry K V) (used : Nat)
    (A B : List (Entry K V)) (n n' : BNode K V) : Prop where
  used_le : used ≤ h
  wf : WF t h n'
  low : n.numKeys ≤ n'.numKeys
  high : n'.numKeys ≤ n.numKeys + 1
  before : inorder n = A ++ B
  after : inorder n' = A ++ entry :: B
  left : Before Entry.key cmp A entry.key
  right : After Entry.key cmp entry.key B

theorem Inserted.below {entry : Entry K V} {used : Nat} {l : Bool} {P Q : List (BNode K V)}
    {c c' n : BNode K V} (hins : Inserted cmp t h entry used X Y c c')
    (hwf : WF t (h + 1) (.mk l (A ++ B) (P ++ c :: Q))) (hnot : c.numKeys < 2 * t - 1)
    (hP : P.length = A.length) (hA : Before Entry.key cmp (lead P A) entry.key)
    (hB : After Entry.key cmp entry.key (weave B Q))
    (hn : inorder n = inorder (.mk l (A ++ B) (P ++ c :: Q))) (hlow : n.numKeys ≤ (A ++ B).length)
    (hhigh : (A ++ B).length ≤ n.numKeys + 1) {used' : Nat} (hused : used' ≤ used + 1) :
    Inserted cmp t (h + 1) entry used' (lead P A ++ X) (Y ++ weave B Q) n
      (.mk l (A ++ B) (P ++ c' :: Q)) := by
  have hfits := hwf.child
  have hhi := hins.high
  have hlo := hins.low
  have hle := hins.used_le
  refine ⟨by omega,hwf.with_child ⟨hins.wf,by have := hfits.2.1; omega,by omega⟩,hlow,hhigh,
    ?_,?_,?_,?_⟩
  · rw [hn, inorder_focus c hP, hins.before]
    simp
  · rw [inorder_focus c' hP, hins.after]
    simp
  · exact List.forall_mem_append.2 ⟨hA,hins.left⟩
  · exact List.forall_mem_append.2 ⟨hins.right,hB⟩

theorem head?_or {α : Type} (X Y : List (Entry K V)) (f : Entry K V → α) (next : Option α) :
    ((X ++ Y).head?.map f).or next = (X.head?.map f).or ((Y.head?.map f).or next) := by
  cases X <;> rfl

section

variable [TransCmp cmp]

theorem modify_spec (f : Entry K V → Entry K V) (key : K) {fuel : Nat} (hfuel : h < fuel)
    (hwf : WF t h n) (hord : Ordered Entry.key cmp (inorder n)) :
    (modify cmp f fuel n key = some none ∧ ∀ e ∈ inorder n, cmp e.key key ≠ .eq) ∨
    ∃ A e B n', modify cmp f fuel n key = some (some (n', e)) ∧ cmp e.key key = .eq ∧
      WF t h n' ∧ n'.numKeys = n.numKeys ∧ inorder n = A ++ e :: B ∧
      inorder n' = A ++ f e :: B := by
  induction fuel generalizing n h with
  | zero => omega
  | succ fuel ih =>
    obtain ⟨l,es,cs⟩ := n
    obtain ⟨A,hA,hbound,⟨e,B,rfl,he,hmatch⟩ | ⟨B,rfl,hB,hmatch⟩⟩ :=
      bound_cases (ordered_entries hord) key
    · right
      obtain ⟨P,Q,rfl,hP,hQ⟩ := hwf.arity.cut
      refine ⟨inorder (.mk l A P),e,inorder (.mk l B Q),.mk l (A ++ f e :: B) (P ++ Q),?_,he,
        hwf.with_entries (by simp),by simp,inorder_join hP hQ,
        inorder_join hP hQ⟩
      simp [modify, hbound, hmatch]
    · cases h with
      | zero =>
        left
        obtain ⟨rfl,hcs⟩ := hwf
        rw [List.length_eq_zero_iff.1 hcs] at *
        constructor
        · simp [modify, hbound, hmatch]
        · exact List.forall_mem_append.2 ⟨hA.ne,hB.ne⟩
      | succ h =>
        obtain ⟨P,c,Q,rfl,hP,hQ⟩ := hwf.arity.child
        obtain ⟨hc,hlead,hweave⟩ := sides hord hP hA hB
        have hstep : modify cmp f (fuel+1) (.mk l (A ++ B) (P ++ c :: Q)) key =
            (modify cmp f fuel c key).map fun found => found.map fun p =>
              (.mk l (A ++ B) (P ++ p.1 :: Q),p.2) := by
          rw [hwf.1]
          simp only [modify, hbound, hmatch, getElem?_mid hP, set_mid hP,
            bind_eq_bind, bind_some]
          cases modify cmp f fuel c key <;> rfl
        rw [hstep]
        rcases ih (by omega) hwf.child.1 hc with ⟨hnone,habsent⟩ | ⟨X,e,Y,c',hsome,hfound⟩
        · left
          rw [hnone]
          refine ⟨rfl,?_⟩
          rw [inorder_focus c hP, List.forall_mem_append, List.forall_mem_append]
          exact ⟨hlead.ne,habsent,hweave.ne⟩
        · right
          obtain ⟨he,hwf',hnum,hX,hX'⟩ := hfound
          rw [hsome]
          refine ⟨lead P A ++ X,e,Y ++ weave B Q,_,rfl,he,hwf.with_child ⟨hwf',?_⟩,rfl,?_,?_⟩
          · rw [hnum]
            exact hwf.child.2
          · rw [inorder_focus c hP, hX]
            simp
          · rw [inorder_focus c' hP, hX']
            simp

/-- The descent finds the place of an absent key, and the link it hands back is the one of the
entry after that place. -/
theorem insertInto_spec (ht : 2 ≤ t) (entry : Entry K V) {fuel : Nat} (hfuel : h < fuel)
    (hwf : WF t h n) (hnot : n.numKeys < 2 * t - 1) (hord : Ordered Entry.key cmp (inorder n))
    (habsent : ∀ e ∈ inorder n, cmp e.key entry.key ≠ .eq) :
    ∃ used A B n', Inserted cmp t h entry used A B n n' ∧ ∀ pool next, used ≤ pool.length →
      insertInto cmp t entry fuel n pool next =
        some (n', pool.drop used, (B.head?.map Entry.link).or next) := by
  induction fuel generalizing n h with
  | zero => omega
  | succ fuel ih =>
    obtain ⟨l,es,cs⟩ := n
    obtain ⟨A,hA,hbound,⟨e,B,rfl,he,-⟩ | ⟨B,rfl,hB,-⟩⟩ :=
      bound_cases (ordered_entries hord) entry.key
    · exact absurd he (habsent e ((sublist_inorder l _ cs).mem (by simp)))
    have hnext : (A ++ B)[A.length]? = B.head? := by
      rw [List.getElem?_append_right (Nat.le_refl _), Nat.sub_self, List.head?_eq_getElem?]
    cases h with
    | zero =>
      obtain ⟨rfl,hcs⟩ := hwf
      rw [List.length_eq_zero_iff.1 hcs] at *
      refine ⟨0,A,B,.mk true (A ++ entry :: B) [],⟨Nat.le_refl 0,⟨rfl,rfl⟩,by
        simp,by simp; omega,by rw [inorder],
        by rw [inorder],hA,hB⟩,fun pool next _ => ?_⟩
      simp [insertInto, hbound, insertIdx_mid rfl, hnext]
    | succ h =>
      obtain ⟨P,c,Q,rfl,hP,hQ⟩ := hwf.arity.child
      obtain ⟨hc,hlead,hweave⟩ := sides hord hP hA hB
      obtain rfl : l = false := hwf.1
      have hinside : ∀ x ∈ inorder c, cmp x.key entry.key ≠ .eq := fun x hx =>
        habsent x (by rw [inorder_focus c hP]; simp [hx])
      by_cases hfull : c.numKeys = 2 * t-1
      · -- the child is full: split it, then descend on the side of the median that has the key
        obtain ⟨l',X,m,Y,cs,rfl,hX,hY⟩ := full_cut (by omega) hfull
        obtain ⟨C,D,rfl,hC,hD⟩ := hwf.child.1.arity.cut
        obtain ⟨hwfX,hwfY⟩ := hwf.child.1.halves hC hD
        have hjoin := inorder_join (l := l') (m := m) hC hD
        rw [hjoin] at hc hinside
        have hm := hinside m (List.mem_append_right _ List.mem_cons_self)
        obtain ⟨hordX,hordY,hbm,ham⟩ := ordered_mid.1 hc
        have hsplit := splitChild_eq (l := false) (k := l') (B := B) (m := m) (Q := Q)
          (by omega) hP hX hY hC hD
        have hsame : inorder (.mk false (A ++ B) (P ++ .mk l' (X ++ m :: Y) (C ++ D) :: Q)) =
            inorder (.mk false (A ++ m :: B) (P ++ .mk l' X C :: .mk l' Y D :: Q)) := by
          rw [inorder_focus _ hP, inorder_pair _ _ hP, hjoin]
          simp
        have hwf' : WF t (h+1)
            (.mk false (A ++ m :: B) (P ++ .mk l' X C :: .mk l' Y D :: Q)) := by
          refine wf_iff.2 ⟨rfl,?_,fun x hx => ?_⟩
          · exact Arity.of_child hP (by simp [hQ])
          have hold := (wf_iff.1 hwf).2.2
          simp only [List.mem_append, List.mem_cons] at hx hold
          rcases hx with hx | rfl | rfl | hx
          · exact hold x (.inl hx)
          · exact ⟨hwfX,by simp; omega,by simp; omega⟩
          · exact ⟨hwfY,by simp; omega,by simp; omega⟩
          · exact hold x (.inr (.inr hx))
        by_cases hgt : cmp entry.key m.key = .gt
        · have hmlt := OrientedCmp.lt_of_gt hgt
          obtain ⟨used,X',Y',c',hins,hrun⟩ := ih (by omega) hwfY
            (by simp; omega) hordY
            (fun x hx => hinside x (List.mem_append_right _ (List.mem_cons_of_mem _ hx)))
          rw [List.append_cons A m B, List.append_cons P (Node.mk l' X C)] at hwf' hsame
          have hPA : (P ++ [Node.mk l' X C]).length = (A ++ [m]).length := by simp [hP]
          have hord' := hsame ▸ hord
          rw [inorder_focus _ hPA] at hord'
          have hbefore : Before Entry.key cmp (A ++ [m]) entry.key :=
            List.forall_mem_append.2 ⟨hA,by simpa using hmlt⟩
          refine ⟨used+1,_,_,_,hins.below hwf' (by simp; omega) hPA
            (before_lead hord' hbefore) hweave hsame (by simp)
            (by simp; omega) (Nat.le_refl _),fun pool next hpool => ?_⟩
          cases pool with
          | nil => simp at hpool
          | cons node pool =>
            rw [head?_or, head?_weave hQ, ← List.append_cons, ← List.append_cons]
            simp only [insertInto, hbound, getElem?_mid hP, bind_eq_bind,
              bind_some, hfull, if_true, poolTake, hgt, hsplit,
              getElem?_mid (rfl), getElem?_mid_succ hP, hnext,
              hrun pool _ (by simpa using hpool), set_mid_succ hP]
            rfl
        · have hlt : cmp entry.key m.key = .lt := by
            cases hcmp : cmp entry.key m.key with
            | lt => rfl
            | eq => exact absurd (OrientedCmp.eq_symm hcmp) hm
            | gt => exact absurd hcmp hgt
          obtain ⟨used,X',Y',c',hins,hrun⟩ := ih (by omega) hwfX
            (by simp; omega) hordX
            (fun x hx => hinside x (List.mem_append_left _ hx))
          have hord' := hsame ▸ hord
          rw [inorder_focus _ hP] at hord'
          have hafter : After Entry.key cmp entry.key (weave (m :: B) (.mk l' Y D :: Q)) :=
            after_weave hord'.append.2.append.2 (List.forall_mem_cons.2 ⟨hlt,hB⟩)
          refine ⟨used+1,_,_,_,hins.below hwf' (by simp; omega) hP
            hlead hafter hsame (by simp)
            (by simp; omega) (Nat.le_refl _),fun pool next hpool => ?_⟩
          cases pool with
          | nil => simp at hpool
          | cons node pool =>
            rw [head?_or]
            simp only [insertInto, hbound, if_false, getElem?_mid hP, bind_eq_bind,
              bind_some, hfull, poolTake, hgt, hsplit,
              getElem?_mid (rfl : A.length = _), hrun pool _ (by simpa using hpool),
              set_mid hP]
            rfl
      · have hlt : c.numKeys < 2 * t-1 := by
          have := hwf.child.2.2
          omega
        obtain ⟨used,X,Y,c',hins,hrun⟩ := ih (by omega) hwf.child.1 hlt hc hinside
        refine ⟨used,_,_,_,hins.below hwf hlt hP hlead hweave rfl (Nat.le_refl _)
          (Nat.le_succ _) (Nat.le_succ _),fun pool next hpool => ?_⟩
        rw [head?_or, head?_weave hQ]
        simp only [insertInto, hbound, getElem?_mid hP, bind_eq_bind,
          bind_some, hfull, hrun pool _ hpool, set_mid hP, hnext]
        rfl

end

/-! ### Every run keeps the laws of a tree -/

def Rooted (t : Nat) (n : BNode K V) : Prop :=
  ∃ h, WF t h n ∧ 1 ≤ n.numKeys ∧ n.numKeys ≤ 2 * t - 1

theorem poolTake_range' (b count : Nat) :
    poolTake (List.range' b (count + 1)) = some (List.range' (b + 1) count) := rfl

theorem insert_full [TransCmp cmp] (ht : 2 ≤ t) (entry : Entry K V)
    (hwf : WF t h n) (hfull : n.numKeys = 2 * t - 1) (hord : Ordered Entry.key cmp (inorder n))
    (habsent : ∀ e ∈ inorder n, cmp e.key entry.key ≠ .eq) :
    ∃ root used A B n', splitChild t (.mk false [] [n]) 0 = some root ∧ root.levels = h + 2 ∧
      inorder root = inorder n ∧ root.numKeys = 1 ∧
      Inserted cmp t (h + 1) entry used A B root n' ∧ ∀ pool next, used ≤ pool.length →
        insertInto cmp t entry (h + 2) root pool next =
          some (n', pool.drop used, (B.head?.map Entry.link).or next) := by
  obtain ⟨l,X,m,Y,cs,rfl,hX,hY⟩ := full_cut (by omega) hfull
  obtain ⟨C,D,rfl,hC,hD⟩ := hwf.arity.cut
  obtain ⟨hwfX,hwfY⟩ := hwf.halves hC hD
  have hsplit := splitChild_eq (l := false) (k := l) (m := m) (A := []) (B := []) (P := [])
    (Q := []) (by omega) rfl hX hY hC hD
  have hwf' : WF t (h+1) (.mk false [m] [.mk l X C, .mk l Y D]) := by
    refine ⟨rfl,rfl,fun c hc => ?_⟩
    rcases List.mem_cons.1 hc with rfl | hc
    · exact ⟨hwfX,by simp; omega,by simp; omega⟩
    · obtain rfl := List.mem_singleton.1 hc
      exact ⟨hwfY,by simp; omega,by simp; omega⟩
  have hsame : inorder (.mk false [m] [.mk l X C, .mk l Y D]) =
      inorder (.mk l (X ++ m :: Y) (C ++ D)) := by
    rw [inorder_join hC hD, inorder_cons, inorder_tip]
  obtain ⟨used,A,B,n',hins,hrun⟩ := insertInto_spec ht entry (Nat.lt_succ_self (h + 1)) hwf'
    (by simp; omega) (hsame ▸ hord) (hsame ▸ habsent)
  exact ⟨_,used,A,B,n',hsplit,levels_eq hwf',hsame,rfl,hins,hrun⟩

theorem btree_laws [TransCmp cmp] (ht : 2 ≤ t) :
    Tree.Laws cmp (btree (V := V) cmp t) inorder fun _ n => Rooted t n where
  shape_mono _ h := h
  branches := by
    rintro b n ⟨h,hwf,hpos,-⟩
    have := two_pow_le_inorder ht hwf hpos
    rw [show (btree cmp t).levels n = h + 1 from levels_eq hwf, Nat.pow_succ]
    omega
  modify := by
    rintro b n f key hf ⟨h,hwf,hnum⟩ hord
    have hfuel : h < n.levels := by
      rw [levels_eq hwf]
      omega
    rcases modify_spec f key hfuel hwf hord with habsent | ⟨A,e,B,n',hfound⟩
    · exact .inl habsent
    · obtain ⟨hmodify,he,hwf',hnum',hA,hA'⟩ := hfound
      exact .inr ⟨A,e,B,n',hmodify,he,⟨h,hwf',hnum' ▸ hnum⟩,hA,hA'⟩
  insert_empty b entry := by
    refine ⟨.mk true [entry] [],⟨0,⟨rfl,rfl⟩,Nat.le_refl 1,?_⟩,by rw [inorder],?_⟩
    · show 1 ≤ 2 * t-1
      omega
    · intro count hcount
      obtain ⟨count,rfl⟩ : ∃ k, count = k + 1 := ⟨count - 1,by omega⟩
      rfl
  insert := by
    rintro b n entry ⟨h,hwf,hpos,hmax⟩ hord habsent
    have hlevels : (btree cmp t).levels n = h+1 := levels_eq hwf
    by_cases hfull : n.numKeys = 2 * t-1
    · obtain ⟨root,used,A,B,n',hsplit,hroot,hsame,hnum,hins,hrun⟩ :=
        insert_full ht entry hwf hfull hord habsent
      have hused := hins.used_le
      have hlow := hins.low
      have hhigh := hins.high
      refine ⟨used+2,by omega,A,B,n',⟨h+1,hins.wf,by omega,by omega⟩,
        hsame ▸ hins.before,hins.after,?_,fun count hcount => ?_⟩
      · rw [hins.after]
        exact (hins.before.symm.trans hsame ▸ hord).insert_mid hins.left hins.right
      · obtain ⟨count,rfl⟩ : ∃ k, count = k + 2 := ⟨count - 2,by omega⟩
        have hstep := hrun (List.range' (b+1+1) count) none (by rw [List.length_range']; omega)
        simp only [btree, insertPrepared, hfull, if_true, poolTake_range', bind_eq_bind,
          bind_some, hsplit, hroot, hstep, List.drop_range', Option.or_none,
          Nat.add_sub_add_right]
        congr 4
        omega
    · obtain ⟨used,A,B,n',hins,hrun⟩ := insertInto_spec ht entry (Nat.lt_succ_self h) hwf
        (by omega) hord habsent
      have hused := hins.used_le
      have hlow := hins.low
      have hhigh := hins.high
      refine ⟨used,by omega,A,B,n',⟨h,hins.wf,by omega,by omega⟩,hins.before,hins.after,
        ?_,fun count hcount => ?_⟩
      · rw [hins.after]
        exact (hins.before ▸ hord).insert_mid hins.left hins.right
      · have hstep := hrun (List.range' b count) none (by rw [List.length_range']; omega)
        simp [btree, insertPrepared, hfull, levels_eq hwf, hstep]
  delete := by
    rintro b n key ⟨h,hwf,hpos,hmax⟩ hord hkey
    obtain ⟨n',e,hdelete,hdel⟩ := delete_spec ht (show 2 * h < 2 * n.levels by
      rw [levels_eq hwf]
      omega) hwf hpos hord hkey
    obtain ⟨A,B,hA,hA'⟩ := hdel.lists
    have hhigh := hdel.high
    by_cases hempty : n'.numKeys = 0
    · have hremove : (btree cmp t).delete n key =
          some (if n'.leaf then none else n'.children[0]?,e) := by
        simp only [btree, remove, hdelete, bind_eq_bind, bind_some, hempty]
        rfl
      obtain ⟨l,es,cs⟩ := n'
      obtain rfl : es = [] := List.length_eq_zero_iff.1 hempty
      have hwf' := hdel.wf
      cases h with
      | zero =>
        obtain ⟨rfl,hcs⟩ := hwf'
        obtain rfl := List.length_eq_zero_iff.1 hcs
        exact ⟨A,e,B,none,hremove,hdel.key,hA,by rw [← hA']; rfl,by simp⟩
      | succ h =>
        obtain ⟨rfl,hcs,hall⟩ := hwf'
        obtain ⟨c,rfl⟩ := List.length_eq_one_iff.1 hcs
        have hc := hall c List.mem_cons_self
        refine ⟨A,e,B,some c,hremove,hdel.key,hA,?_,?_⟩
        · rw [← hA', inorder_tip]
          rfl
        · rintro _ ⟨⟩
          exact ⟨h,hc.1,by omega,hc.2.2⟩
    · refine ⟨A,e,B,some n',?_,hdel.key,hA,hA',?_⟩
      · simp only [btree, remove, hdelete, bind_eq_bind, bind_some, hempty]
        rfl
      · rintro _ ⟨⟩
        exact ⟨h,hdel.wf,by omega,by omega⟩

structure Represents (cmp : K → K → Ordering) (t : Nat) (tree : Tree K V (BNode K V)) : Prop where
  nodes : ∀ root ∈ tree.root, Rooted t root
  ascending : (tree.pairs inorder).Pairwise fun p q => cmp p.1 q.1 = .lt
  size : tree.size = (tree.pairs inorder).length

/-- Any run of calls from an empty tree, under any failures, computes what a sorted map computes and
leaves a B-tree whose in-order list is that map; a `put` fails only for a reason. -/
theorem btree_refines [TransCmp cmp] (ht : 2 ≤ t) (entryLimit generation : Nat)
    (ops : List (Tree.Op K V)) :
    ∃ replies tree, Tree.run (btree cmp t) (Tree.init K V _ entryLimit generation) ops =
        some (replies, tree) ∧
      Tree.MapRun cmp [] ops replies (tree.pairs inorder) ∧ Represents cmp t tree ∧
      ∀ env key value s tree', Tree.put (btree cmp t) env tree key value = some (s, tree') →
        s ≠ .ok → Tree.Refuses env tree := by
  have laws : Tree.Laws cmp (btree (V := V) cmp t) inorder fun _ n => Rooted t n := btree_laws ht
  obtain ⟨replies,tree,hrun,hinv,hmap⟩ :=
    (Tree.inv_init cmp inorder (fun _ => Rooted t) entryLimit generation).run laws ops
  refine ⟨replies,tree,hrun,hmap,⟨hinv.shape,List.pairwise_map.2 hinv.ordered,?_⟩,
    fun env key value s tree' hput hs => hinv.refuses laws hput hs⟩
  rw [hinv.size, Tree.pairs, List.length_map]

theorem btree_refines_reshaping :
    ∃ tree, Tree.run (btree compare 2) (Tree.init Nat Nat _ 8 0) Tree.reshaping =
        some (Tree.reshapingReplies, tree) ∧
      tree.pairs inorder = [(2, 22), (4, 40)] ∧
      Tree.MapRun compare [] Tree.reshaping Tree.reshapingReplies (tree.pairs inorder) ∧
      Represents compare 2 tree ∧
      ∀ env key value s tree', Tree.put (btree compare 2) env tree key value = some (s, tree') →
        s ≠ .ok → Tree.Refuses env tree :=
  Tree.run_shows (by decide +kernel) (btree_refines (by decide) 8 0 Tree.reshaping)

end Salts.Cstl.BTree
