import Salts.CFlowChartTree

/-!
The tree phase of the build.  It accepts the rows of the states exactly when they form a tree and
their document order is a depth-first walk of it; the depths are then the distances from the root,
and the descendants of a state stand together in the document order.
-/

namespace Salts.CFlow

section Rows

variable (rows : List ChartState)

structure FormsTree : Prop where
  parents : ∀ i, (rows.get i).parent ≠ 0 → ∃ p, rowParents rows i = some p
  root : ∃ r, (∀ i, (rows.get i).parent = 0 ↔ i = r) ∧
    ((rows.get r).kind = .final ∨ (rows.get r).kind.canComplete = true)
  acyclic : ∀ i, ¬Relation.TransGen (fun i p => rowParents rows i = some p) i i

def rowOrder : List (Fin rows.length) :=
  sortedBy (fun i => [(rows.get i).documentOrder, i]) (List.finRange rows.length)

/-- The document order starts at the root and goes on from each state to a child of it or of one of
its ancestors, as a depth-first walk does. -/
structure DepthFirst : Prop where
  root : ∃ r ∈ (rowOrder rows).head?, (rows.get r).parent = 0
  next : (rowOrder rows).IsChain fun i j => ∃ p, rowParents rows j = some p ∧
    Relation.ReflTransGen (fun i p => rowParents rows i = some p) i p

end Rows

section Walk

variable {n : Nat} {parents : Fin n → Option (Fin n)}
variable {colors : Fin n → WalkColor} {stack : List (Fin n)} {current : Option (Fin n)}

theorem walkUp_stops (parents : Fin n → Option (Fin n)) (fuel : Nat) (current : Option (Fin n))
    (hgrey : ∀ x, colors x = .grey → x ∈ stack) :
    (∀ x, (walkUp parents fuel colors stack current).1 x = .grey →
      x ∈ (walkUp parents fuel colors stack current).2.1) ∧
    ∀ p, (walkUp parents fuel colors stack current).2.2 = some p →
      (walkUp parents fuel colors stack current).1 p = .white →
      (walkUp parents fuel colors stack current).2.1.length = fuel + stack.length := by
  induction fuel generalizing colors stack current with
  | zero => cases current <;> exact ⟨hgrey,by simp [walkUp]⟩
  | succ fuel ih =>
    cases current with
    | none => exact ⟨hgrey,by rintro _ ⟨⟩⟩
    | some x =>
      simp only [walkUp]
      split
      · have hpush : ∀ y, Function.update colors x .grey y = .grey → y ∈ x :: stack := by
          intro y hy
          by_cases hyx : y = x
          · simp [hyx]
          · rw [Function.update_of_ne hyx] at hy
            exact List.mem_cons_of_mem x (hgrey y hy)
        obtain ⟨hin,hlen⟩ := ih (parents x) hpush
        refine ⟨hin,fun p hp hw => ?_⟩
        rw [hlen p hp hw, List.length_cons]
        omega
      · rename_i hx
        refine ⟨hgrey,fun p hp hw => ?_⟩
        cases hp
        exact absurd hw hx

variable {depths : Fin n → Nat}

theorem Linked.trans {p : Fin n} (h : Linked parents stack (some p)) {x : Fin n} (hx : x ∈ stack) :
    Relation.TransGen (fun a b => parents a = some b) x p := by
  induction stack generalizing p with
  | nil => cases hx
  | cons y stack ih =>
    rcases List.mem_cons.1 hx with rfl | hx
    · exact .single h.1
    · exact (ih h.2 hx).tail h.1

theorem walkAll_isSome (hac : ∀ x, ¬Relation.TransGen (fun a b => parents a = some b) x x)
    {rows : List (Fin n)} (hgrey : ∀ x, colors x ≠ .grey) :
    ∃ w, walkAll parents rows (colors, depths) = some w := by
  induction rows generalizing colors depths with
  | nil => exact ⟨_,rfl⟩
  | cons index rows ih =>
    simp only [walkAll]
    split
    · exact ih hgrey
    have hwalk : Walking parents colors colors [] (some index) :=
      ⟨trivial,List.nodup_nil,by simp,fun _ => Iff.rfl⟩
    have hend := hwalk.walkUp n
    have hnone : ∀ x, colors x = .grey → x ∈ [] := fun x hx => absurd hx (hgrey x)
    obtain ⟨hin,hfull⟩ := walkUp_stops parents n (some index) hnone
    split
    · rename_i hstop
      obtain ⟨p,hp,hblack⟩ := (Option.any_eq_true _ _).1 hstop
      have hout : p ∉ (walkUp parents n colors [] (some index)).2.1 := fun hmem =>
        hac p ((hp ▸ hend.linked).trans hmem)
      cases hcolor : (walkUp parents n colors [] (some index)).1 p with
      | white =>
        have hlen := (hend.nodup.cons hout).length_le_card
        rw [List.length_cons, hfull p hp hcolor, Fintype.card_fin] at hlen
        exact absurd hlen (Nat.not_succ_le_self n)
      | grey => exact absurd (hin p hcolor) hout
      | black => simp [hcolor] at hblack
    · refine ih fun x => ?_
      rw [unwind_colors]
      split
      · simp
      · exact fun hx => ‹x ∉ _› (hin x hx)

end Walk

namespace ChartTree

variable {c : ChartTree}

/-- How a depth-first walk goes on: to a child of the state or of one of its ancestors. -/
def Sound.Follows (h : c.Sound) (x y : c.Index) : Prop :=
  ∃ p, c.parents y = some p ∧ h.tree.Below x p

section Leaves

variable {h : c.Sound} {x s : c.Index} {l : List c.Index}

theorem Sound.Follows.enters {y : c.Index} (hf : h.Follows x y) (hx : ¬h.tree.Below x s)
    (hy : h.tree.Below y s) : y = s := by
  by_contra hne
  obtain ⟨p,hp,hxp⟩ := hf
  obtain ⟨p',hp',hps⟩ := hy.parent_below hne
  obtain rfl : p = p' := Option.some.inj (hp.symm.trans hp')
  exact hx (hxp.trans hps)

section

variable (hl : (x :: l).IsChain h.Follows)

include hl

theorem Sound.outside (hx : ¬h.tree.Below x s) (hs : s ∉ l) : ∀ y ∈ l, ¬h.tree.Below y s := by
  induction l generalizing x with
  | nil => simp
  | cons y l ih =>
    obtain ⟨hf,hl⟩ := List.isChain_cons_cons.1 hl
    have hy : ¬h.tree.Below y s := fun hb => hs (hf.enters hx hb ▸ .head _)
    exact List.forall_mem_cons.2 ⟨hy,ih hl hy fun hmem => hs (List.mem_cons_of_mem y hmem)⟩

theorem Sound.leaves (hs : s ∉ l) :
    ∃ inside after, l = inside ++ after ∧ (∀ y ∈ inside, h.tree.Below y s) ∧
      ∀ y ∈ after, ¬h.tree.Below y s := by
  induction l generalizing x with
  | nil => exact ⟨[],[],rfl,by simp,by simp⟩
  | cons y l ih =>
    have hsl : s ∉ l := fun hmem => hs (List.mem_cons_of_mem y hmem)
    obtain ⟨-,hl⟩ := List.isChain_cons_cons.1 hl
    by_cases hy : h.tree.Below y s
    · obtain ⟨inside,after,rfl,hin,hout⟩ := ih hl hsl
      exact ⟨y :: inside,after,rfl,List.forall_mem_cons.2 ⟨hy,hin⟩,hout⟩
    · exact ⟨[],y :: l,rfl,by simp,List.forall_mem_cons.2 ⟨hy,Sound.outside hl hy hsl⟩⟩

theorem Sound.interval (hn : (x :: l).Nodup) (hx : h.tree.Below x s → x = s) :
    ∃ before inside after, x :: l = before ++ inside ++ after ∧
      (∀ y ∈ before ++ after, ¬h.tree.Below y s) ∧ ∀ y ∈ inside, h.tree.Below y s := by
  induction l generalizing x with
  | nil =>
    by_cases hb : h.tree.Below x s
    · exact ⟨[],[x],[],rfl,by simp,by simpa using hb⟩
    · exact ⟨[x],[],[],rfl,by simpa using hb,by simp⟩
  | cons y l ih =>
    by_cases hb : h.tree.Below x s
    · obtain rfl := hx hb
      obtain ⟨inside,after,heq,hin,hout⟩ := Sound.leaves hl (List.nodup_cons.1 hn).1
      exact ⟨[],x :: inside,after,by rw [heq]; rfl,hout,List.forall_mem_cons.2 ⟨hb,hin⟩⟩
    · obtain ⟨hf,hl⟩ := List.isChain_cons_cons.1 hl
      obtain ⟨before,inside,after,heq,hout,hin⟩ := ih hl (List.nodup_cons.1 hn).2 (hf.enters hb)
      exact ⟨x :: before,inside,after,by rw [heq]; rfl,List.forall_mem_cons.2 ⟨hb,hout⟩,hin⟩

end

end Leaves

variable (h : c.Sound)

include h

variable {x : c.Index}

theorem Sound.exists_ancestor {k : Nat} (hk : k ≤ c.depths x) :
    ∃ y, h.tree.Below x y ∧ c.depths y = k := by
  induction hd : c.depths x generalizing x with
  | zero => exact ⟨x,.refl,by omega⟩
  | succ d ih =>
    by_cases hx : c.depths x = k
    · exact ⟨x,.refl,hx⟩
    cases hp : c.parents x with
    | none =>
      have htop := h.top hp
      omega
    | some p =>
      have hdp := h.depth hp
      obtain ⟨y,hy,hyk⟩ := ih (x := p) (by omega) (by omega)
      exact ⟨y,(AndOrTree.Below.of_parent hp).trans hy,hyk⟩

theorem Sound.preorderFrom_iff (path : Nat → Option c.Index)
    (hpath : ∀ y, h.tree.Below x y → path (c.depths y) = some y) (l : List c.Index) :
    c.preorderFrom path (c.depths x) l = true ↔ (x :: l).IsChain h.Follows := by
  induction l generalizing x path with
  | nil => simp [preorderFrom]
  | cons y l ih =>
    rw [List.isChain_cons_cons, preorderFrom]
    -- what the three tests say together
    have htest : (c.depths y = 0 ∨ (c.depths x < c.depths y ∧ 1 < c.depths y-c.depths x) ∨
        path (c.depths y-1) ≠ c.parents y) ↔ ¬h.Follows x y := by
      rw [← not_iff_not, not_not]
      constructor
      · intro hpass
        simp only [not_or, not_and, not_not] at hpass
        obtain ⟨z,hz,hd⟩ := h.exists_ancestor (x := x) (k := c.depths y - 1) (by omega)
        refine ⟨z,?_,hz⟩
        rw [← hpass.2.2, ← hd]
        exact hpath z hz
      · rintro ⟨p,hp,hb⟩
        have hd := h.depth hp
        have hle : c.depths p ≤ c.depths x := hb.rank_le
        have hat : path (c.depths y-1) = c.parents y := by
          rw [hd, Nat.add_sub_cancel, hp]
          exact hpath p hb
        simp only [not_or, not_and, not_not]
        exact ⟨by omega,by omega,hat⟩
    by_cases hf : h.Follows x y
    · rw [if_neg (htest.not.2 (not_not.2 hf)), ih, and_iff_right hf]
      obtain ⟨p,hp,hb⟩ := hf
      intro z hz
      by_cases hzy : y = z
      · simp [hzy]
      obtain ⟨p',hp',hz⟩ := hz.parent_below hzy
      obtain rfl : p = p' := Option.some.inj (hp.symm.trans hp')
      have hd := h.depth hp
      have hle : c.depths z ≤ c.depths p := hz.rank_le
      rw [if_neg (by omega), if_neg (by omega)]
      exact hpath z (hb.trans hz)
    · rw [if_pos (htest.2 hf)]
      simp [hf]

theorem Sound.documentPreorder_iff : c.documentPreorder = true ↔
    c.documentOrderIndices.head? = some c.root ∧ c.documentOrderIndices.IsChain h.Follows := by
  have hroot : c.depths c.root = 0 := h.top ((h.root c.root).2 rfl)
  rw [documentPreorder]
  split
  · rename_i hnil
    have hmem := c.mem_documentOrderIndices c.root
    rw [hnil] at hmem
    cases hmem
  · rename_i x l hl
    by_cases hx : x = c.root
    · subst hx
      rw [hl, ← h.preorderFrom_iff fun k => if k = 0 then some c.root else none, hroot]
      · simp
      · intro y hy
        obtain rfl : c.root = y := hy.eq_of_rank (hroot.trans_le (Nat.zero_le _))
        exact if_pos hroot
    · simp [hl, hx]

theorem Sound.descendants_contiguous (hpre : c.documentPreorder = true) (s : c.Index) :
    ∃ before inside after, c.documentOrderIndices = before ++ inside ++ after ∧
      ∀ x, x ∈ inside ↔ c.isDescendant x s = true := by
  obtain ⟨hhead,hchain⟩ := h.documentPreorder_iff.1 hpre
  have hnodup := c.documentOrderIndices_nodup
  obtain ⟨l,hl⟩ := List.head?_eq_some_iff.1 hhead
  have hroot : h.tree.rank c.root ≤ h.tree.rank s :=
    (h.top ((h.root c.root).2 rfl)).trans_le (Nat.zero_le _)
  rw [hl] at hchain hnodup
  obtain ⟨before,inside,after,heq,hout,hin⟩ :=
    Sound.interval hchain hnodup fun hb => hb.eq_of_rank hroot
  refine ⟨before,inside,after,hl.trans heq,fun x => ?_⟩
  rw [h.isDescendant_iff]
  refine ⟨hin x,fun hx => ?_⟩
  have hmem := c.mem_documentOrderIndices x
  rw [hl, heq] at hmem
  by_contra hnot
  exact hout x (by simpa [hnot] using hmem) hx

theorem Sound.climbs (s : c.Index) :
    (fun x : Option c.Index => x.bind c.parents)^[c.depths s] (some s) = some c.root := by
  induction hd : c.depths s generalizing s with
  | zero =>
    cases hp : c.parents s with
    | none => simpa using (h.root s).1 hp
    | some p =>
      have hdp := h.depth hp
      omega
  | succ d ih =>
    cases hp : c.parents s with
    | none =>
      have htop := h.top hp
      omega
    | some p =>
      have hdp := h.depth hp
      rw [Function.iterate_succ_apply]
      simpa [hp] using ih p (by omega)

end ChartTree

variable {rows : List ChartState} {c : ChartTree}

theorem formsTree_of_ok (hc : initializeTree rows = .ok c) : FormsTree rows := by
  obtain ⟨h,depths,root,hroot,rfl⟩ := initializeTree_ok hc
  refine ⟨fun i hi => ?_,⟨root,hroot,h.rootKind⟩,fun i hi => ?_⟩
  · apply Option.ne_none_iff_exists'.1
    intro hnone
    exact hi ((hroot i).2 ((h.root i).1 hnone))
  · obtain ⟨p,hp,hback⟩ := Relation.TransGen.head'_iff.1 hi
    exact AndOrTree.not_below_child (T := h.tree) hp hback

theorem ok_of_formsTree (h : FormsTree rows) : ∃ c, initializeTree rows = .ok c := by
  obtain ⟨root,hroot,hkind⟩ := h.root
  obtain ⟨w,hw⟩ : ∃ w, walkAll (rowParents rows) (List.finRange rows.length)
      (fun _ => .white,fun _ => 0) = some w := walkAll_isSome h.acyclic (by simp)
  have hroots : (List.finRange rows.length).filter (fun i => decide ((rows.get i).parent = 0)) =
      [root] := by
    apply List.perm_singleton.1
    apply (List.perm_ext_iff_of_nodup ((List.nodup_finRange _).filter _)
      (List.nodup_singleton root)).2
    intro i
    simpa using hroot i
  have hknown : ¬((List.finRange rows.length).any fun i =>
      decide ((rows.get i).parent ≠ 0) && (rowParents rows i).isNone) = true := by
    simp only [List.any_eq_true, Bool.and_eq_true, decide_eq_true_eq, not_exists, not_and]
    rintro i - hi
    obtain ⟨p,hp⟩ := h.parents i hi
    simp [hp]
  have hadmits : ¬((rows.get root).kind ≠ .final ∧ (rows.get root).kind.canComplete = false) := by
    rw [not_and_or, not_not, Bool.not_eq_false]
    exact hkind
  refine ⟨⟨rows.length,fun i => rows.get i,rowParents rows,w.2,root⟩,?_⟩
  unfold rowParents at hknown hw
  simp only [initializeTree]
  rw [if_neg hknown, hroots]
  simp only
  rw [if_neg hadmits, hw]
  rfl

theorem depthFirst_iff (hc : initializeTree rows = .ok c) :
    c.documentPreorder = true ↔ DepthFirst rows := by
  obtain ⟨h,depths,root,hroot,rfl⟩ := initializeTree_ok hc
  rw [h.documentPreorder_iff]
  constructor
  · intro ⟨hhead,hnext⟩
    exact ⟨⟨root,hhead,(hroot root).2 rfl⟩,hnext⟩
  · intro ⟨⟨r,hr,hzero⟩,hnext⟩
    rw [(hroot r).1 hzero] at hr
    exact ⟨hr,hnext⟩

/-- The tree phase accepts exactly the rows that form a tree and stand in the order of a depth-first
walk; then each depth is the number of steps up to the root, and the descendants of a state are an
interval of the document order. -/
theorem tree_phase_exact (rows : List ChartState) :
    ((∃ c, initializeTree rows = .ok c ∧ c.documentPreorder = true) ↔
      FormsTree rows ∧ DepthFirst rows) ∧
    ∀ c, initializeTree rows = .ok c → c.documentPreorder = true → ∀ s,
      (fun x : Option c.Index => x.bind c.parents)^[c.depths s] (some s) = some c.root ∧
      ∃ before inside after, c.documentOrderIndices = before ++ inside ++ after ∧
        ∀ x, x ∈ inside ↔ c.isDescendant x s = true := by
  refine ⟨⟨?_,?_⟩,fun c hc hpre s => ?_⟩
  · intro ⟨c,hc,hpre⟩
    exact ⟨formsTree_of_ok hc,(depthFirst_iff hc).1 hpre⟩
  · intro ⟨hforms,hfirst⟩
    obtain ⟨c,hc⟩ := ok_of_formsTree hforms
    exact ⟨c,hc,(depthFirst_iff hc).2 hfirst⟩
  · have h := (initializeTree_ok hc).1
    exact ⟨h.climbs s,h.descendants_contiguous hpre s⟩

/-- A state with two children of its own between the children of the root. -/
def nested : List ChartState :=
  [⟨1, 0, .compound, 1⟩, ⟨2, 1, .initial, 2⟩, ⟨3, 1, .compound, 3⟩, ⟨4, 3, .initial, 4⟩,
    ⟨5, 3, .atomic, 5⟩, ⟨6, 1, .final, 6⟩]

/-- The same tree with the final state between the children of the inner one. -/
def interleaved : List ChartState :=
  [⟨1, 0, .compound, 1⟩, ⟨2, 1, .initial, 2⟩, ⟨3, 1, .compound, 3⟩, ⟨4, 3, .initial, 4⟩,
    ⟨5, 3, .atomic, 6⟩, ⟨6, 1, .final, 5⟩]

theorem tree_phase_exact_nested :
    (∃ c, initializeTree nested = .ok c ∧ c.documentPreorder = true ∧
      FormsTree nested ∧ DepthFirst nested ∧ ∀ s,
        (fun x : Option c.Index => x.bind c.parents)^[c.depths s] (some s) = some c.root ∧
        ∃ before inside after, c.documentOrderIndices = before ++ inside ++ after ∧
          ∀ x, x ∈ inside ↔ c.isDescendant x s = true) ∧
    ¬ (FormsTree interleaved ∧ DepthFirst interleaved) := by
  constructor
  · have hok : (initializeTree nested).toOption.any (·.documentPreorder) = true := by
      decide +kernel
    cases hc : initializeTree nested with
    | error e => simp [hc, Except.toOption] at hok
    | ok c =>
      have hpre : c.documentPreorder = true := by simpa [hc, Except.toOption] using hok
      obtain ⟨hiff,hall⟩ := tree_phase_exact nested
      obtain ⟨hforms,hfirst⟩ := hiff.1 ⟨c,hc,hpre⟩
      exact ⟨c,rfl,hpre,hforms,hfirst,hall c hc hpre⟩
  · rw [← (tree_phase_exact _).1]
    have hno : (initializeTree interleaved).toOption.all (!·.documentPreorder) = true := by
      decide +kernel
    rintro ⟨c,hc,hpre⟩
    simp [hc, Except.toOption, hpre] at hno

end Salts.CFlow
