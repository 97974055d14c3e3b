import Mathlib.Data.Fintype.Card
import Mathlib.Data.List.Lex
import Salts.AndOrTree
import Salts.CFlowChartStep

/-!
What a successful build guarantees about its tables: the parents form a tree with one root, the
document order lists every state once, states have the children their kinds allow, and the default
transition of a pseudo-state leads where it may.
-/

namespace Salts.CFlow

open Function (update update_of_ne update_self)
open List (finRange mem_cons mem_finRange nodup_cons pairwise_cons)

section Sorting

theorem keyLe_iff {a b : List Nat} : keyLe a b = true ↔ a ≤ b := by
  rw [← not_lt]
  induction a generalizing b with
  | nil => simp [keyLe]
  | cons x a ih =>
    cases b with
    | nil => simp [keyLe]
    | cons y b =>
      rw [keyLe, List.cons_lt_cons_iff]
      rcases lt_trichotomy x y with h | rfl | h
      · simp [h, h.ne', h.le]
      · simpa using ih
      · simp [h, h.le.not_gt]

theorem head_le_of_keyLe {x y : Nat} {a b : List Nat} (h : keyLe (x :: a) (y :: b) = true) :
    x ≤ y := by
  by_contra hlt
  exact not_lt.2 (keyLe_iff.1 h) (.rel (not_le.1 hlt))

variable {α : Type} {key : α → List Nat} {rows : List α}

theorem sortedBy_perm : (sortedBy key rows).Perm rows := List.perm_insertionSort _ _

@[simp] theorem mem_sortedBy {a : α} : a ∈ sortedBy key rows ↔ a ∈ rows := sortedBy_perm.mem_iff

theorem sortedBy_pairwise : (sortedBy key rows).Pairwise fun a b => keyLe (key a) (key b) = true := by
  simp only [keyLe_iff]
  have htotal : Std.Total fun a b : α => key a ≤ key b := ⟨fun a b => le_total (key a) (key b)⟩
  have htrans : IsTrans α fun a b => key a ≤ key b := ⟨fun _ _ _ => le_trans⟩
  simpa only [sortedBy, keyLe_iff] using List.pairwise_insertionSort (fun a b => key a ≤ key b) rows

theorem lt_of_not_repeats {l : List Nat} (hl : l.Pairwise (· ≤ ·)) (h : repeats l = false) :
    l.Pairwise (· < ·) := by
  induction l with
  | nil => exact .nil
  | cons a l ih =>
    obtain ⟨ha,hl⟩ := pairwise_cons.1 hl
    cases l with
    | nil => exact List.pairwise_singleton _ _
    | cons b l =>
      simp only [repeats, Bool.or_eq_false_iff, decide_eq_false_iff_not] at h
      have hb := ih hl h.2
      have hab : a < b := lt_of_le_of_ne (ha b (by simp)) h.1
      refine pairwise_cons.2 ⟨fun x hx => ?_,hb⟩
      rcases mem_cons.1 hx with rfl | hx
      · exact hab
      · exact hab.trans ((pairwise_cons.1 hb).1 x hx)

theorem nodup_of_not_repeats {l : List Nat} (h : repeats (l.insertionSort (· ≤ ·)) = false) :
    l.Nodup :=
  (List.perm_insertionSort _ l).nodup_iff.1
    ((lt_of_not_repeats (List.pairwise_insertionSort _ l) h).imp ne_of_lt)

theorem get_inj_of_nodup_map {β : Type} {f : α → β} (h : (rows.map f).Nodup)
    {i j : Fin rows.length} (hf : f (rows.get i) = f (rows.get j)) : i = j := by
  have hne := List.pairwise_iff_get.1 (List.pairwise_map.1 h)
  rcases lt_trichotomy i j with hlt | rfl | hlt
  · exact absurd hf (hne i j hlt)
  · rfl
  · exact absurd hf.symm (hne j i hlt)

end Sorting

section Walk

variable {n : Nat} {parents : Fin n → Option (Fin n)}

def Ranked (parents : Fin n → Option (Fin n)) (colors : Fin n → WalkColor) (depths : Fin n → Nat) :
    Prop :=
  ∀ x, colors x = .black → (parents x = none → depths x = 0) ∧
    ∀ p, parents x = some p → colors p = .black ∧ depths x = depths p + 1

/-- The stack of a walk: each state under the one pushed after it, the last under the present
one. -/
def Linked (parents : Fin n → Option (Fin n)) : List (Fin n) → Option (Fin n) → Prop
  | [], _ => True
  | x :: stack, current => parents x = current ∧ Linked parents stack (some x)

structure Walking (parents : Fin n → Option (Fin n)) (start colors : Fin n → WalkColor)
    (stack : List (Fin n)) (current : Option (Fin n)) : Prop where
  linked : Linked parents stack current
  nodup : stack.Nodup
  grey : ∀ x ∈ stack, colors x = .grey
  black : ∀ x, colors x = .black ↔ start x = .black

variable {colors : Fin n → WalkColor} {stack : List (Fin n)} {current : Option (Fin n)}

theorem Walking.walkUp {start : Fin n → WalkColor} (fuel : Nat)
    (h : Walking parents start colors stack current) :
    Walking parents start (walkUp parents fuel colors stack current).1
      (walkUp parents fuel colors stack current).2.1
      (walkUp parents fuel colors stack current).2.2 := by
  induction fuel generalizing colors stack current with
  | zero => cases current <;> exact h
  | succ fuel ih =>
    cases current with
    | none => exact h
    | some x =>
      simp only [CFlow.walkUp]
      split
      · rename_i hx
        have hnot : x ∉ stack := by
          intro hmem
          rw [h.grey x hmem] at hx
          cases hx
        refine ih ⟨⟨rfl,h.linked⟩,nodup_cons.2 ⟨hnot,h.nodup⟩,?_,?_⟩
        · intro y hy
          rcases mem_cons.1 hy with rfl | hys
          · simp
          have hne : y ≠ x := by
            rintro rfl
            exact hnot hys
          rw [update_of_ne hne]
          exact h.grey y hys
        · intro y
          rw [← h.black y]
          by_cases hyx : y = x
          · subst hyx
            simp [hx]
          · rw [update_of_ne hyx]
      · exact h

theorem mem_walkUp (fuel : Nat) {x : Fin n} (hx : x ∈ stack) :
    x ∈ (walkUp parents fuel colors stack current).2.1 := by
  induction fuel generalizing colors stack current with
  | zero => cases current <;> exact hx
  | succ fuel ih =>
    cases current with
    | none => exact hx
    | some y =>
      simp only [walkUp]
      split
      · exact ih (List.mem_cons_of_mem y hx)
      · exact hx

variable {depths : Fin n → Nat}

theorem unwind_colors (x : Fin n) :
    (unwind parents stack (colors, depths)).1 x = if x ∈ stack then .black else colors x := by
  induction stack generalizing colors depths with
  | nil => rfl
  | cons y stack ih =>
    rw [unwind, ih]
    by_cases hxy : x = y
    · simp [hxy]
    · simp [hxy]

theorem unwind_spec (hl : Linked parents stack current) (hn : stack.Nodup)
    (hgrey : ∀ x ∈ stack, colors x ≠ .black) (hr : Ranked parents colors depths)
    (hc : ∀ p, current = some p → colors p = .black) :
    Ranked parents (unwind parents stack (colors, depths)).1
      (unwind parents stack (colors, depths)).2 := by
  induction stack generalizing colors depths current with
  | nil => exact hr
  | cons x stack ih =>
    obtain ⟨hx,hl⟩ := hl
    obtain ⟨hnot,hn⟩ := nodup_cons.1 hn
    have hxb : colors x ≠ .black := hgrey x (by simp)
    -- the state on top is finished: its parent is
    have hranked : ∀ d, (parents x = none → d = 0) → (∀ p, parents x = some p → d = depths p+1) →
        Ranked parents (update colors x .black) (update depths x d) := by
      intro d hnone hsome y hy
      have hpx : ∀ p, colors p = .black → p ≠ x := by
        rintro p hpb rfl
        exact hxb hpb
      by_cases hyx : y = x
      · subst hyx
        refine ⟨fun hp => by rw [update_self, hnone hp],fun p hp => ?_⟩
        have hpb : colors p = .black := hc p (by rw [← hx, hp])
        rw [update_of_ne (hpx p hpb), update_of_ne (hpx p hpb), update_self]
        exact ⟨hpb,hsome p hp⟩
      · rw [update_of_ne hyx] at hy
        rw [update_of_ne hyx]
        refine ⟨(hr y hy).1,fun p hp => ?_⟩
        obtain ⟨hpb,hd⟩ := (hr y hy).2 p hp
        rw [update_of_ne (hpx p hpb), update_of_ne (hpx p hpb)]
        exact ⟨hpb,hd⟩
    refine ih hl hn (fun y hy => ?_)
      (hranked _ (fun hp => by rw [hp]) fun p hp => by rw [hp]) fun p hp => ?_
    · have hne : y ≠ x := by
        rintro rfl
        exact hnot hy
      rw [update_of_ne hne]
      exact hgrey y (List.mem_cons_of_mem x hy)
    · rw [← Option.some.inj hp, update_self]

theorem walkAll_spec {rows : List (Fin n)} {w : (Fin n → WalkColor) × (Fin n → Nat)}
    (hr : Ranked parents colors depths) (h : walkAll parents rows (colors, depths) = some w) :
    Ranked parents w.1 w.2 ∧ ∀ x, x ∈ rows ∨ colors x = .black → w.1 x = .black := by
  induction rows generalizing colors depths with
  | nil =>
    cases h
    exact ⟨hr,fun x hx => hx.resolve_left (List.not_mem_nil)⟩
  | cons index rows ih =>
    simp only [walkAll] at h
    split at h
    · rename_i hblack
      obtain ⟨hrank,hall⟩ := ih hr h
      refine ⟨hrank,fun x hx => hall x ?_⟩
      rcases hx with hx | hx
      · rcases mem_cons.1 hx with rfl | hx
        · exact Or.inr hblack
        · exact Or.inl hx
      · exact Or.inr hx
    · split at h
      · cases h
      rename_i hnb hcur
      have hwalk : Walking parents colors colors [] (some index) :=
        ⟨trivial,List.nodup_nil,by simp,fun _ => Iff.rfl⟩
      have hend := hwalk.walkUp n
      have hstop : ∀ p, (walkUp parents n colors [] (some index)).2.2 = some p →
          (walkUp parents n colors [] (some index)).1 p = .black := by
        intro p hp
        rw [hp] at hcur
        simpa using hcur
      have hranked : Ranked parents (walkUp parents n colors [] (some index)).1 depths := by
        intro x hx
        obtain ⟨htop,hparent⟩ := hr x ((hend.black x).1 hx)
        exact ⟨htop,fun p hp => ⟨(hend.black p).2 (hparent p hp).1,(hparent p hp).2⟩⟩
      obtain ⟨hrank,hall⟩ := ih (unwind_spec hend.linked hend.nodup
        (fun x hx => by rw [hend.grey x hx]; simp) hranked hstop) h
      refine ⟨hrank,fun x hx => hall x ?_⟩
      rw [unwind_colors]
      rcases hx with hx | hx
      · rcases mem_cons.1 hx with rfl | hx
        · refine Or.inr (if_pos ?_)
          -- a grey start would have been found on the walk itself
          obtain ⟨m,rfl⟩ : ∃ m, n = m + 1 := ⟨n - 1,by have := x.isLt; omega⟩
          by_cases hw : colors x = .white
          · rw [walkUp, if_pos hw]
            exact mem_walkUp m (by simp)
          · rw [walkUp, if_neg hw] at hstop
            exact absurd (hstop x rfl) hnb
        · exact Or.inl hx
      · simp [(hend.black x).2 hx]

end Walk

structure ChartTree.Sound (c : ChartTree) : Prop where
  top : ∀ {x : c.Index}, c.parents x = none → c.depths x = 0
  depth : ∀ {x p : c.Index}, c.parents x = some p → c.depths x = c.depths p + 1
  root : ∀ x, c.parents x = none ↔ x = c.root
  rootKind : c.kind c.root = .final ∨ (c.kind c.root).canComplete = true

/-- The parents that `initialize_tree` looks up. -/
def rowParents (rows : List ChartState) (i : Fin rows.length) : Option (Fin rows.length) :=
  if (rows.get i).parent = 0 then none
  else findStateIndex (fun i => rows.get i) (rows.get i).parent

variable {c : ChartTree}

theorem initializeTree_ok {rows : List ChartState} (h : initializeTree rows = .ok c) :
    c.Sound ∧ ∃ depths root, (∀ i, (rows.get i).parent = 0 ↔ i = root) ∧
      c = ⟨rows.length, fun i => rows.get i, rowParents rows, depths, root⟩ := by
  simp only [initializeTree] at h
  split at h
  · cases h
  rename_i hknown
  split at h
  · rename_i root hroots
    split at h
    · cases h
    rename_i hkind
    split at h
    · cases h
    rename_i w hw
    cases h
    obtain ⟨hrank,hall⟩ := walkAll_spec (fun x hx => by cases hx) hw
    have hblack : ∀ x, w.1 x = .black := fun x => hall x (Or.inl (mem_finRange x))
    have hroot : ∀ x, (rows.get x).parent = 0 ↔ x = root := by
      intro x
      have hmem : x ∈ (finRange rows.length).filter
          (fun i => decide ((rows.get i).parent = 0)) ↔ x = root := by
        rw [hroots]
        simp
      simpa only [List.mem_filter, mem_finRange, true_and, decide_eq_true_eq] using hmem
    refine ⟨⟨fun {x} hp => (hrank x (hblack x)).1 hp,
      fun {x p} hp => ((hrank x (hblack x)).2 p hp).2,?_,?_⟩,_,_,hroot,rfl⟩
    · intro x
      rw [← hroot x]
      constructor
      · intro hnone
        by_contra hne
        refine hknown (List.any_eq_true.2 ⟨x,mem_finRange x,?_⟩)
        exact Bool.and_eq_true_iff.2 ⟨decide_eq_true hne,Option.isNone_iff_eq_none.2 hnone⟩
      · intro hzero
        exact if_pos hzero
    · by_contra hnot
      rw [not_or, Bool.not_eq_true] at hnot
      exact hkind hnot
  · cases h

namespace ChartTree

variable {c : ChartTree}

def Sound.tree (h : c.Sound) : AndOrTree c.Index where
  parent := c.parents
  rank := c.depths
  rank_lt := fun hp => by
    have hd := h.depth hp
    omega
  single := fun s => c.kind s = .compound

theorem mem_chain_self (fuel : Nat) (s : c.Index) : s ∈ c.chain fuel s := by
  cases fuel <;> simp [chain]

variable {s a : c.Index}

section

variable (h : c.Sound)

include h

theorem Sound.below_of_mem_chain {fuel : Nat} (ha : a ∈ c.chain fuel s) : h.tree.Below s a := by
  induction fuel generalizing s with
  | zero =>
    simp only [chain, List.mem_singleton] at ha
    exact ha ▸ .refl
  | succ fuel ih =>
    simp only [chain, mem_cons] at ha
    rcases ha with rfl | ha
    · exact .refl
    cases hp : c.parents s with
    | none => simp [hp] at ha
    | some p =>
      rw [hp] at ha
      exact (AndOrTree.Below.of_parent hp).trans (ih ha)

theorem Sound.mem_chain_of_below {fuel : Nat} (hfuel : c.depths s ≤ fuel) (hb : h.tree.Below s a)
    : a ∈ c.chain fuel s := by
  induction fuel generalizing s with
  | zero =>
    have hrank : h.tree.rank s ≤ h.tree.rank a := by
      show c.depths s ≤ c.depths a
      omega
    rw [hb.eq_of_rank hrank]
    exact mem_chain_self 0 a
  | succ fuel ih =>
    by_cases hne : s = a
    · exact hne ▸ mem_chain_self _ s
    obtain ⟨p,hp,hpa⟩ := hb.parent_below hne
    have hparent : c.parents s = some p := hp
    have hd := h.depth hparent
    simp only [chain, hparent, mem_cons]
    exact Or.inr (ih (by omega) hpa)

theorem Sound.chain_nodup (s : c.Index) :
    (c.chain (c.depths s) s).Nodup ∧ (c.chain (c.depths s) s).length = c.depths s + 1 := by
  induction hd : c.depths s generalizing s with
  | zero => simp [chain]
  | succ d ih =>
    cases hp : c.parents s with
    | none =>
      have htop := h.top hp
      omega
    | some p =>
      have hdp := h.depth hp
      obtain ⟨hn,hl⟩ := ih p (by omega)
      simp only [chain, hp, nodup_cons, List.length_cons, hl]
      refine ⟨⟨?_,hn⟩,trivial⟩
      intro hmem
      have hle := (h.below_of_mem_chain hmem).rank_le
      have hlt : c.depths s ≤ c.depths p := hle
      omega

theorem Sound.depths_lt (s : c.Index) : c.depths s < c.stateCount := by
  obtain ⟨hn,hl⟩ := h.chain_nodup s
  have hcard := hn.length_le_card
  rw [hl, Fintype.card_fin] at hcard
  exact hcard

theorem Sound.mem_chain_iff : a ∈ c.chain c.stateCount s ↔ h.tree.Below s a :=
  ⟨h.below_of_mem_chain,h.mem_chain_of_below (h.depths_lt s).le⟩

theorem Sound.isDescendant_iff : c.isDescendant s a = true ↔ h.tree.Below s a := by
  rw [isDescendant, decide_eq_true_eq, h.mem_chain_iff]

theorem Sound.isProperDescendant_iff :
    c.isProperDescendant s a = true ↔ s ≠ a ∧ h.tree.Below s a := by
  rw [isProperDescendant, Bool.and_eq_true, decide_eq_true_eq, h.isDescendant_iff]

theorem Sound.below_of_mem_tail (ha : a ∈ (c.chain c.stateCount s).tail) : h.tree.Below s a :=
  h.below_of_mem_chain (List.mem_of_mem_tail ha)

end

theorem mem_documentOrderIndices (s : c.Index) : s ∈ c.documentOrderIndices :=
  mem_sortedBy.2 (mem_finRange s)

theorem documentOrderIndices_nodup : c.documentOrderIndices.Nodup :=
  sortedBy_perm.nodup_iff.2 (List.nodup_finRange _)

@[simp] theorem mem_children {x : c.Index} : x ∈ c.children s ↔ c.parents x = some s := by
  simp [children, mem_documentOrderIndices]

theorem children_nodup (s : c.Index) : (c.children s).Nodup := documentOrderIndices_nodup.filter _

end ChartTree

theorem orElse_eq_none {α : Type} {a b : Option α} : (a <|> b) = none ↔ a = none ∧ b = none := by
  cases a <;> simp

theorem findSome?_finRange_eq_none {n : Nat} {α : Type} {f : Fin n → Option α} :
    (finRange n).findSome? f = none ↔ ∀ i, f i = none := by
  simp

structure ChartImpl.WellFormed (c : ChartImpl) : Prop extends ChartTree.Sound c.toChartTree where
  orders : ∀ x y : c.State, (c.states x).documentOrder = (c.states y).documentOrder → x = y
  parentKind : ∀ {x p : c.State}, c.parents x = some p → (c.kind p).canComplete = true
  initialParent : ∀ {x p : c.State}, c.parents x = some p → c.kind x = .initial →
    c.kind p = .compound
  compound : ∀ s, c.kind s = .compound → ∃ i, c.initialChildren s = [i]
  parallel : ∀ s, c.kind s = .parallel → ∃ x, c.parents x = some s ∧ c.real x = true
  targetNamed : ∀ t, c.strayTarget t = false
  targetKind : ∀ t, ∀ x ∈ c.transitionTargets t, c.kind x ≠ .initial
  default : ∀ s, (c.kind s).pseudo = true → ∃ p t, c.parents s = some p ∧
    c.defaultTransitionIndices s = some t ∧ c.transitionTargets t ≠ [] ∧
    ∀ x ∈ c.transitionTargets t, c.defaultTarget s p (c.transitionTargets t) x = true
  domain : ∀ t d, c.transitionDomains t = some d → c.kind d = .compound ∧
    (∀ x ∈ c.transitionTargets t, c.isProperDescendant x d = true) ∧
    ∀ s, c.source t = some s → c.isDescendant s d = true

section Build

variable {d : ChartDefinition}

theorem buildStatechart_ok {c : ChartImpl} (h : buildStatechart d = .ok c) :
    ∃ tables, chartTables d = .ok tables ∧ tables.error d = none ∧
      c = normalizeStatechart tables d := by
  simp only [buildStatechart] at h
  split at h
  · cases h
  rename_i tables htables
  split at h
  · cases h
  · rename_i herror
    exact ⟨tables,htables,herror,(Except.ok.inj h).symm⟩

theorem transitionTargetSpans_nil {ts : List ChartTransition} {spans : List (List c.Index)}
    (h : transitionTargetSpans c ts [] = .ok spans) : ∀ span ∈ spans, span.length ≤ 1 := by
  induction ts generalizing spans with
  | nil =>
    cases h
    intro span hspan
    cases hspan
  | cons t ts ih =>
    have hrows : targetRows c [] = .ok [] := rfl
    simp only [transitionTargetSpans, List.head?_nil, Option.any_none, List.takeWhile_nil, hrows,
      ne_eq, not_true_eq_false, false_and, if_false, if_true, Bool.false_eq_true] at h
    split at h
    · cases h
    rename_i rest hrest
    cases h
    intro l hl
    rcases mem_cons.1 hl with rfl | hl
    · split
      · simp
      · cases findStateIndex c.states t.target <;> simp
    · exact ih hrest l hl

theorem findStateIndex_isSome {n : Nat} {states : Fin n → ChartState} {i : Fin n} {id : Nat}
    (h : (states i).id = id) : (findStateIndex states id).isSome = true :=
  List.find?_isSome.2 ⟨i,List.mem_finRange i,beq_iff_eq.2 h⟩

theorem chartTables_ok {c : ChartTables} (h : chartTables d = .ok c) :
    c.toChartTree.Sound ∧ c.childKindError = none ∧
      (∀ x y : c.Index, (c.states x).documentOrder = (c.states y).documentOrder → x = y) ∧
      (d.SingleTarget → ∀ t, (c.transitionTargets t).length ≤ 1) ∧
      (d.TargetsNamed → ∀ t, c.strayTarget t = false) := by
  simp only [chartTables] at h
  split at h
  · cases h
  split at h
  · cases h
  split at h
  · cases h
  rename_i hrepeats
  split at h
  · cases h
  rename_i tree htree
  split at h
  · cases h
  split at h
  · cases h
  rename_i hchild
  split at h
  · cases h
  rename_i spans hspans
  cases h
  obtain ⟨hsound,depths,root,-,rfl⟩ := initializeTree_ok htree
  refine ⟨hsound,hchild,?_,?_,?_⟩
  · intro x y hxy
    rw [Bool.not_eq_true, Bool.or_eq_false_iff] at hrepeats
    exact get_inj_of_nodup_map (nodup_of_not_repeats hrepeats.1) hxy
  · intro hsingle t
    have hnil := hsingle
    rw [hnil] at hspans
    have hall := transitionTargetSpans_nil hspans
    show (spans.getD t []).length ≤ 1
    rw [List.getD_eq_getElem?_getD]
    cases hspan : spans[(t)]? with
    | none => simp
    | some span => exact hall span (List.mem_of_getElem? hspan)
  · intro hnamed t
    have hmem := mem_sortedBy.1 (List.get_mem (sortedBy (fun t => [t.id]) d.transitions) t)
    refine Bool.and_eq_false_imp.2 fun htarget => ?_
    obtain ⟨s,hs,hid⟩ := hnamed _ hmem (of_decide_eq_true htarget)
    have hsorted : s ∈ sortedBy (fun s => [s.id]) d.states := mem_sortedBy.2 hs
    obtain ⟨i,hi⟩ := List.get_of_mem hsorted
    rw [Option.isNone_eq_false_iff]
    exact findStateIndex_isSome ((congrArg ChartState.id hi).trans hid)

variable {c : ChartTables}

theorem childKinds_ok (h : c.childKindError = none) :
    (∀ s, c.parentError s = none) ∧ ∀ s, c.childError s = none := by
  rw [ChartTree.childKindError, orElse_eq_none, findSome?_finRange_eq_none,
    findSome?_finRange_eq_none] at h
  exact h

theorem transitions_ok (h : c.error d = none) :
    (∀ t, c.transitionError d t = none) ∧ (∀ t, c.defaultError t = none) ∧
      ∀ s, c.defaultCountError s = none := by
  simp only [ChartTables.error, ChartTables.transitionsError, orElse_eq_none,
    findSome?_finRange_eq_none] at h
  exact ⟨h.2.2.2.1.1,h.2.2.2.1.2.1,h.2.2.2.1.2.2.1⟩

theorem parentKind_of_childError (h : ∀ s, c.childError s = none) {x p : c.Index}
    (hp : c.parents x = some p) : (c.kind p).canComplete = true := by
  have herror := h p
  have hmem := ChartTree.mem_children.2 hp
  have hne := List.ne_nil_of_mem hmem
  cases hk : c.kind p <;> simp [ChartTree.childError, hk, hne] at herror ⊢ <;> rfl

theorem default_of_checks (htr : ∀ t, c.defaultError t = none)
    (hcount : ∀ s, c.defaultCountError s = none) {s : c.Index} (hs : (c.kind s).pseudo = true) :
    ∃ p t, c.parents s = some p ∧ (normalizeStatechart c d).defaultTransitionIndices s = some t ∧
      c.transitionTargets t ≠ [] ∧
      ∀ x ∈ c.transitionTargets t, c.defaultTarget s p (c.transitionTargets t) x = true := by
  have hlength : (c.transitionIndices s).length = 1 := by
    have herror := hcount s
    simpa [ChartTables.defaultCountError, hs] using herror
  have hperm : (c.transitionIndices s).length =
      ((finRange c.transitionCount).filter fun i => decide (c.source i = some s)).length :=
    sortedBy_perm.length_eq
  rw [hperm, List.length_eq_one_iff] at hlength
  obtain ⟨t,ht⟩ := hlength
  have hsource : c.source t = some s := by
    have hmem : t ∈ (finRange c.transitionCount).filter
        fun i => decide (c.source i = some s) := by
      rw [ht]
      simp
    simpa using hmem
  have hslot : (normalizeStatechart c d).defaultTransitionIndices s = some t := by
    simp only [normalizeStatechart, hs, ht]
    rfl
  have herror := htr t
  simp only [ChartTables.defaultError, hsource, hs, Bool.true_eq_false, if_false] at herror
  cases hp : c.parents s with
  | none => simp [hp] at herror
  | some p =>
    rw [hp] at herror
    simp only at herror
    split at herror
    · cases herror
    rename_i hform
    split at herror
    · rename_i hall
      rw [Bool.and_eq_true, Bool.not_eq_true'] at hall
      simp only [not_or, ChartTables.targetless, hall.1, Bool.not_false, Bool.and_true,
        decide_eq_true_eq] at hform
      exact ⟨p,t,rfl,hslot,hform.2.2.2.2.1,List.all_eq_true.1 hall.2⟩
    · cases herror

theorem domain_of_checks (h : c.toChartTree.Sound) {t : Fin c.transitionCount} {a : c.Index}
    (ha : (normalizeStatechart c d).transitionDomains t = some a) :
    c.kind a = .compound ∧ (∀ x ∈ c.transitionTargets t, c.isProperDescendant x a = true) ∧
      ∀ s, c.source t = some s → c.isDescendant s a = true := by
  obtain ⟨source,hsource,ha⟩ := Option.bind_eq_some_iff.1 ha
  have hunique : ∀ s, c.source t = some s → s = source := by
    intro s hs
    exact Option.some.inj (hs.symm.trans hsource)
  split at ha
  · cases ha
  split at ha
  · rename_i hinternal
    cases ha
    have hall := (Bool.and_eq_true_iff.1 hinternal.2.2).2
    refine ⟨hinternal.2.1,List.all_eq_true.1 hall,fun s hs => ?_⟩
    rw [hunique s hs]
    exact h.isDescendant_iff.2 .refl
  · have hfound := List.find?_some ha
    have hmem := List.mem_of_find?_eq_some ha
    rw [Bool.and_eq_true, decide_eq_true_eq] at hfound
    have hall := (Bool.and_eq_true_iff.1 hfound.2).2
    refine ⟨hfound.1,List.all_eq_true.1 hall,fun s hs => ?_⟩
    rw [hunique s hs]
    exact h.isDescendant_iff.2 (h.below_of_mem_tail hmem)

theorem wellFormed_of_build {c : ChartImpl} (h : buildStatechart d = .ok c)
    (hnamed : d.TargetsNamed) :
    c.WellFormed ∧ (d.SingleTarget → ∀ t, (c.transitionTargets t).length ≤ 1) := by
  obtain ⟨tables,htables,herror,rfl⟩ := buildStatechart_ok h
  obtain ⟨hsound,hchild,horders,hsingle,hstray⟩ := chartTables_ok htables
  obtain ⟨hparent,hchildren⟩ := childKinds_ok hchild
  obtain ⟨htransition,hdefault,hcount⟩ := transitions_ok herror
  refine ⟨⟨hsound,horders,parentKind_of_childError hchildren,?_,?_,?_,hstray hnamed,?_,
    fun s hs => default_of_checks hdefault hcount hs,fun t a ha => domain_of_checks hsound ha⟩,hsingle⟩
  · intro x p hp hx
    by_contra hne
    have hbad := hparent x
    have hx' : tables.kind x = .initial := hx
    have hne' : tables.kind p ≠ .compound := hne
    have hp' : tables.parents x = some p := hp
    simp [ChartTree.parentError, hp', hx', hne'] at hbad
  · intro s hs
    have hbad := hchildren s
    have hs' : tables.kind s = .compound := hs
    simp only [ChartTree.childError, hs'] at hbad
    split at hbad
    · cases hbad
    · rename_i hok
      simp only [not_or, not_not] at hok
      exact List.length_eq_one_iff.1 hok.2
  · intro s hs
    have hbad := hchildren s
    have hs' : tables.kind s = .parallel := hs
    simp only [ChartTree.childError, hs'] at hbad
    split at hbad
    · cases hbad
    rename_i hok
    rw [not_or] at hok
    obtain ⟨x,hx⟩ := List.exists_mem_of_ne_nil _ hok.1
    obtain ⟨hmem,hreal⟩ := List.mem_filter.1 hx
    exact ⟨x,ChartTree.mem_children.1 hmem,hreal⟩
  · intro t x hx hinit
    have hbad := htransition t
    have hany : (tables.transitionTargets t).any (fun target => decide (tables.kind target = .initial))
        = true := List.any_eq_true.2 ⟨x,hx,decide_eq_true hinit⟩
    simp only [ChartTables.transitionError, hany, if_true] at hbad
    split at hbad
    · cases hbad
    · split at hbad <;> cases hbad

end Build

end Salts.CFlow
