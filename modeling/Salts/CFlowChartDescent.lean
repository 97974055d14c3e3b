import Salts.CFlowChartEnter

/-!
The descent through the stack.  A turn takes an active state from the stack and completes it: a
compound state without an active child gets the goals of its initial state, a parallel state all of
its regions.  Each turn lowers the number of states that are not active or still on the stack, so
the stack runs empty, and then the configuration is legal.
-/

namespace Salts.CFlow.ChartImpl

open AndOrTree

variable {c : ChartImpl}

structure Legal (bits : c.Bits) : Prop where
  root : bits c.root = true
  real : ∀ s, bits s = true → c.real s = true
  parent : ∀ s p, bits s = true → c.parents s = some p → bits p = true
  compound : ∀ s, bits s = true → c.kind s = .compound →
    ∃! x, c.parents x = some s ∧ c.real x = true ∧ bits x = true
  parallel : ∀ s, bits s = true → c.kind s = .parallel →
    ∀ x, c.parents x = some s → c.real x = true → bits x = true

def Filled (bits : c.Bits) (s : c.State) : Prop :=
  (c.kind s = .compound → ∃ x, c.parents x = some s ∧ bits x = true) ∧
    (c.kind s = .parallel → ∀ x, c.parents x = some s → c.real x = true → bits x = true)

theorem Filled.mono {bits bits' : c.Bits} {s : c.State} (h : Filled bits s)
    (hle : ∀ x, bits x = true → bits' x = true) : Filled bits' s := by
  refine ⟨fun hk => ?_,fun hk x hp hx => hle x (h.2 hk x hp hx)⟩
  obtain ⟨x,hp,hx⟩ := h.1 hk
  exact ⟨x,hp,hle x hx⟩

namespace EntryWork

structure Descent (hc : c.WellFormed) (w : c.EntryWork) : Prop where
  stacked : w.Stacked
  closed : hc.tree.Closed (on w.bits)
  one : hc.tree.OneChild (on w.bits)
  root : w.bits c.root = true
  noted : w.Noted hc
  filled : ∀ s, w.bits s = true → s ∉ w.stack → Filled w.bits s

def popped (w : c.EntryWork) (rest : List c.State) : c.EntryWork := { w with stack := rest }

variable {hc : c.WellFormed} {w w' : c.EntryWork} {s : c.State} {rest : List c.State}
  {g : Set c.State}

theorem Descent.popped (h : w.Descent hc) (hstack : w.stack = s :: rest) :
    w.bits s = true ∧ s ∉ rest ∧ (w.popped rest).Stacked ∧ (w.popped rest).Noted hc := by
  have hnodup := h.stacked.nodup
  rw [hstack] at hnodup
  have hactive : ∀ x ∈ s :: rest, w.bits x = true := by
    rw [← hstack]
    exact h.stacked.active
  refine ⟨hactive s (by simp),(List.nodup_cons.1 hnodup).1,?_,h.noted.1,h.noted.2⟩
  exact ⟨(List.nodup_cons.1 hnodup).2,fun x hx => hactive x (List.mem_cons_of_mem s hx),
    h.stacked.real⟩

/-- A turn that completes its state keeps the invariant and leaves less to do. -/
theorem Descent.turn (h : w.Descent hc) (hstack : w.stack = s :: rest)
    (hent : (w.popped rest).Entered w' g) (hclosed : hc.tree.Closed (on w'.bits))
    (hone : hc.tree.OneChild (on w'.bits)) (hnoted : w'.Noted hc) (hfilled : Filled w'.bits s) :
    w'.Descent hc ∧ w'.todo.card < w.todo.card := by
  obtain ⟨hs,hrest,-⟩ := h.popped hstack
  have hmono : ∀ x, w.bits x = true → w'.bits x = true := fun x hx => hent.mono hx
  constructor
  · refine ⟨hent.stacked,hclosed,hone,hmono _ h.root,hnoted,fun x hx hnot => ?_⟩
    rw [hent.stack, not_or, not_and] at hnot
    have hold : w.bits x = true := by
      rcases (hent.bits x).1 hx with hx' | hx'
      · exact hx'
      · exact Bool.not_eq_false _ ▸ hnot.2 hx'
    by_cases hxs : x = s
    · exact hxs ▸ hfilled
    · refine (h.filled x hold ?_).mono hmono
      rw [hstack, List.mem_cons, not_or]
      exact ⟨hxs,hnot.1⟩
  · apply Finset.card_lt_card
    refine Finset.ssubset_iff_subset_ne.2 ⟨fun x hx => ?_,fun heq => ?_⟩
    · simp only [todo, Finset.mem_filter, Finset.mem_univ, true_and] at hx ⊢
      rcases hx with hx | hx
      · cases hold : w.bits x with
        | false => exact Or.inl rfl
        | true =>
          rw [hmono x hold] at hx
          cases hx
      · rcases (hent.stack x).1 hx with hx | ⟨-,hx⟩
        · exact Or.inr (hstack ▸ List.mem_cons_of_mem s hx)
        · exact Or.inl hx
    · -- the state taken from the stack is done
      have hmem : s ∈ w.todo := by simp [todo, hstack]
      rw [← heq] at hmem
      simp only [todo, Finset.mem_filter, Finset.mem_univ, true_and, hmono s hs] at hmem
      rcases hmem with hmem | hmem
      · cases hmem
      rcases (hent.stack s).1 hmem with hmem | ⟨-,hmem⟩
      · exact hrest hmem
      · have hbit : w.bits s = false := hmem
        rw [hs] at hbit
        cases hbit

def drain (turn : c.EntryWork → c.State → Option c.EntryWork) :
    Nat → c.EntryWork → Option c.EntryWork
  | 0, w => if w.stack = [] then some w else none
  | fuel + 1, w =>
    match w.stack with
    | [] => some w
    | state :: stack => (turn (w.popped stack) state).bind (drain turn fuel)

theorem enterDefaultDescendants_eq (h : c.HistoryBuffer) (fuel : Nat) (w : c.EntryWork) :
    enterDefaultDescendants h fuel w = drain (fun w s => w.enterDefault h s) fuel w := by
  induction fuel generalizing w with
  | zero => rfl
  | succ fuel ih =>
    have hloop := funext ih
    rw [enterDefaultDescendants, hloop]
    rfl

theorem enterInitialDescendants_eq (fuel : Nat) (w : c.EntryWork) :
    enterInitialDescendants fuel w = drain (fun w s => w.enterInitial s) fuel w := by
  induction fuel generalizing w with
  | zero => rfl
  | succ fuel ih =>
    have hloop := funext ih
    rw [enterInitialDescendants, hloop]
    rfl

theorem drain_descent (turn : c.EntryWork → c.State → Option c.EntryWork)
    (hturn : ∀ (w : c.EntryWork) s rest, w.Descent hc → w.stack = s :: rest →
      ∃ w', turn (w.popped rest) s = some w' ∧ w'.Descent hc ∧ w'.todo.card < w.todo.card)
    {fuel : Nat} (hfuel : w.todo.card ≤ fuel) (h : w.Descent hc) :
    ∃ w', drain turn fuel w = some w' ∧ w'.Descent hc ∧ w'.stack = [] := by
  induction fuel generalizing w with
  | zero =>
    have hstack : w.stack = [] := by
      refine List.eq_nil_iff_forall_not_mem.2 fun x hx => ?_
      have hmem : x ∈ w.todo := by simp [todo, hx]
      rw [Finset.card_eq_zero.1 (Nat.le_zero.1 hfuel)] at hmem
      exact absurd hmem (Finset.notMem_empty x)
    exact ⟨w,by simp [drain, hstack],h,hstack⟩
  | succ fuel ih =>
    cases hstack : w.stack with
    | nil => exact ⟨w,by simp [drain, hstack],h,hstack⟩
    | cons s rest =>
      obtain ⟨v,hv,hdescent,hlt⟩ := hturn w s rest h hstack
      obtain ⟨w',hw',hrest⟩ := ih (by omega) hdescent
      exact ⟨w',by simp [drain, hstack, hv, hw'],hrest⟩

theorem todo_card_le (w : c.EntryWork) : w.todo.card ≤ c.stateCount := by
  have hle := w.todo.card_le_univ
  rwa [Fintype.card_fin] at hle

theorem Descent.legal (h : w.Descent hc) (hstack : w.stack = []) : Legal w.bits where
  root := h.root
  real := h.stacked.real
  parent := fun s p hs hp => h.closed s hs p hp
  compound := fun s hs hk => by
    obtain ⟨x,hp,hx⟩ := (h.filled s hs (by simp [hstack])).1 hk
    refine ⟨x,⟨hp,h.stacked.real x hx,hx⟩,?_⟩
    rintro y ⟨hyp,-,hy⟩
    exact h.one s hk y hy x hx hyp hp
  parallel := fun s hs hk => (h.filled s hs (by simp [hstack])).2 hk

section Turns

theorem Descent.clear (h : w.Descent hc)
    (hnone : ((c.children s).filter fun i => c.real i && w.bits i) = []) {x : c.State}
    (hx : w.bits x = true) : ¬hc.tree.Under x s := by
  rintro ⟨hxs,hne⟩
  obtain ⟨b,hb,hxb⟩ := hxs.child hne
  have hbit := h.closed.mem_of_below hx hxb
  have hmem : b ∈ (c.children s).filter fun i => c.real i && w.bits i := by
    simp only [List.mem_filter, Bool.and_eq_true]
    exact ⟨c.mem_children.2 hb,h.stacked.real b hbit,hbit⟩
  rw [hnone] at hmem
  cases hmem

theorem Descent.children_length (h : w.Descent hc) (hk : c.kind s = .compound) :
    ((c.children s).filter fun i => c.real i && w.bits i).length ≤ 1 := by
  have hnodup : ((c.children s).filter fun i => c.real i && w.bits i).Nodup :=
    (c.children_nodup s).filter _
  have hmem : ∀ x ∈ (c.children s).filter fun i => c.real i && w.bits i,
      c.parents x = some s ∧ w.bits x = true := by
    intro x hx
    simp only [List.mem_filter, Bool.and_eq_true] at hx
    exact ⟨c.mem_children.1 hx.1,hx.2.2⟩
  generalize ((c.children s).filter fun i => c.real i && w.bits i) = l at hnodup hmem
  match l with
  | [] => simp
  | [x] => simp
  | x :: y :: l =>
    have hx := hmem x (by simp)
    have hy := hmem y (by simp)
    have hxy := h.one s hk x hx.2 y hy.2 hx.1 hy.1
    rw [hxy] at hnodup
    simp at hnodup

theorem initialOf_spec (hc : c.WellFormed) (hk : c.kind s = .compound) :
    ∃ i t, initialOf s = some i ∧ c.parents i = some s ∧ c.defaultTransitionIndices i = some t ∧
      c.transitionTargets t ≠ [] ∧ ∀ y ∈ c.transitionTargets t, c.kind y ≠ .initial ∧
        hc.tree.Under y s ∧ ((c.kind y).history = true → c.parents y = some s) := by
  obtain ⟨i,hi⟩ := hc.compound s hk
  have hmem : i ∈ c.initialChildren s := by simp [hi]
  simp only [ChartTree.initialChildren, List.mem_filter, decide_eq_true_eq,
    ChartTree.mem_children] at hmem
  have hpseudo : (c.kind i).pseudo = true := by
    rw [hmem.2]
    rfl
  obtain ⟨p,t,hp,ht,hne,hall⟩ := hc.default i hpseudo
  obtain rfl : p = s := Option.some.inj (hp.symm.trans hmem.1)
  refine ⟨i,t,?_,hp,ht,hne,fun y hy => ⟨hc.targetKind t y hy,?_⟩⟩
  · have hlast : (c.initialChildren p).getLast? = some i := by
      rw [hi]
      rfl
    exact hlast
  · have htarget := hall y hy
    simp only [ChartTables.defaultTarget, Bool.or_eq_true, Bool.and_eq_true, decide_eq_true_eq,
      hc.isProperDescendant_iff] at htarget
    rcases htarget with ⟨hreal,hne',hbelow⟩ | ⟨-,hparent⟩
    · refine ⟨⟨hbelow,hne'⟩,fun hhist => ?_⟩
      have hr : c.real y = true := hreal
      rw [history_not_real hhist] at hr
      cases hr
    · exact ⟨.of_parent hparent,fun _ => hparent⟩

variable {ys : List c.State} {h' : c.HistoryBuffer}

section

variable (h : w.Descent hc) (hstack : w.stack = s :: rest)

include h hstack

/-- What the targets of an initial state do to a compound state without an active child. -/
theorem Descent.fill (hk : c.kind s = .compound)
    (hclear : ∀ x, w.bits x = true → ¬hc.tree.Under x s) (hh : h'.Sound hc)
    (hparted : c.TargetsParted) {t : c.Transition} (hys : c.transitionTargets t = ys)
    (hne : ys ≠ []) (hunder : ∀ y ∈ ys, c.kind y ≠ .initial ∧ hc.tree.Under y s)
    (hent : (w.popped rest).Entered w' (hc.ups (ys.flatMap (goals h')))) {t' : c.Transition}
    (hby : w'.pseudoByState = Function.update w.pseudoByState s (some t'))
    (horder : w'.pseudoOrder.length ≤ w.pseudoOrder.length + 1) :
    w'.Descent hc ∧ w'.todo.card < w.todo.card := by
  obtain ⟨hs,-,-,hnoted⟩ := h.popped hstack
  have hgoals : ∀ x ∈ ys.flatMap (goals h'), hc.tree.Under x s := by
    intro x hx
    obtain ⟨y,hy,hx⟩ := List.mem_flatMap.1 hx
    exact goals_under hc hh hx (hunder y hy).2
  -- some goal is active now, and the child above it
  obtain ⟨x,hx⟩ : ∃ x, x ∈ ys.flatMap (goals h') := by
    obtain ⟨y,hy⟩ := List.exists_mem_of_ne_nil ys hne
    cases hhist : (c.kind y).history with
    | false =>
      exact ⟨y,List.mem_flatMap.2 ⟨y,hy,by simp [goals_of_not_history hhist]⟩⟩
    | true =>
      obtain ⟨p,-,hnil,-⟩ := history_goals hc hh hhist
      obtain ⟨x,hx⟩ := List.exists_mem_of_ne_nil _ hnil
      exact ⟨x,List.mem_flatMap.2 ⟨y,hy,hx⟩⟩
  have hxbit : w'.bits x = true := (hent.bits x).2 (Or.inr ⟨x,hx,.refl⟩)
  have hclosed : hc.tree.Closed (on w'.bits) := hc.entered_closed hent h.closed (hc.closed_ups _)
  have hagree : ∀ a ∈ ys.flatMap (goals h'), ∀ b ∈ ys.flatMap (goals h'), hc.tree.Agree a b := by
    intro a ha b hb
    obtain ⟨y,hy,ha⟩ := List.mem_flatMap.1 ha
    obtain ⟨z,hz,hb⟩ := List.mem_flatMap.1 hb
    have hpair : ys.Pairwise (GoalsAgree hc h') := by
      rw [← hys]
      exact (hparted t).imp fun hyz => hyz.goalsAgree hc hh
    have : Std.Symm (GoalsAgree hc h') := ⟨fun _ _ hyz => hyz.symm hc⟩
    exact List.Pairwise.forall_of_forall (fun y _ => goalsAgree_self hc hh hparted y) hpair hy hz
      a ha b hb
  have hone : hc.tree.OneChild (on w'.bits) := by
    rw [hent.on_eq]
    refine h.one.union_ups (fun a ha => ?_) hagree
    refine h.one.fits_of_cleared h.closed hs (fun y hy hys => ?_) (hgoals a ha).1
    by_contra hne
    exact hclear y hy ⟨hys,hne⟩
  have hfilled : Filled w'.bits s := by
    refine ⟨fun _ => ?_,fun hpar => ?_⟩
    · obtain ⟨b,hb,hxb⟩ := (hgoals x hx).1.child (hgoals x hx).2
      exact ⟨b,hb,hclosed.mem_of_below hxbit hxb⟩
    · rw [hk] at hpar
      cases hpar
  refine h.turn hstack hent hclosed hone ?_ hfilled
  exact hnoted.note hent (hnoted.free hclear) hby horder hxbit (hgoals x hx)

theorem Descent.regions (hk : c.kind s = .parallel) {xs : List c.State}
    (hxs : ∀ x, x ∈ xs ↔ c.parents x = some s ∧ c.real x = true)
    (hent : (w.popped rest).Entered w' {x | x ∈ xs}) (hsame : (w.popped rest).SamePseudo w') :
    w'.Descent hc ∧ w'.todo.card < w.todo.card := by
  obtain ⟨hs,-,-,hnoted⟩ := h.popped hstack
  have hclosed : hc.tree.Closed (on w'.bits) := by
    rw [hent.on_eq]
    rintro y (hy | hy) p hp
    · exact Or.inl (h.closed y hy p hp)
    · obtain rfl : p = s := Option.some.inj (Eq.trans (Eq.symm hp) ((hxs y).1 hy).1)
      exact Or.inl hs
  have hone : hc.tree.OneChild (on w'.bits) := by
    -- the regions are children of a parallel state, so they meet in no compound one
    have hcompound : ∀ p, hc.tree.single p → ∀ x ∈ xs, hc.tree.parent x ≠ some p := by
      intro p hp x hx hparent
      obtain rfl : p = s := Option.some.inj (Eq.trans (Eq.symm hparent) ((hxs x).1 hx).1)
      have hkp : c.kind p = .compound := hp
      rw [hk] at hkp
      cases hkp
    rw [hent.on_eq]
    rintro p hp a (ha | ha) b (hb | hb) hap hbp
    · exact h.one p hp a ha b hb hap hbp
    · exact absurd hbp (hcompound p hp b hb)
    · exact absurd hap (hcompound p hp a ha)
    · exact absurd hap (hcompound p hp a ha)
  refine h.turn hstack hent hclosed hone (hnoted.keep hent hsame) ⟨fun hcomp => ?_,?_⟩
  · rw [hk] at hcomp
    cases hcomp
  · intro _ x hp hx
    exact (hent.bits x).2 (Or.inr ((hxs x).2 ⟨hp,hx⟩))

theorem Descent.pass (hfilled : Filled w.bits s) :
    (w.popped rest).Descent hc ∧ (w.popped rest).todo.card < w.todo.card := by
  obtain ⟨-,-,hst,hnoted⟩ := h.popped hstack
  exact h.turn hstack (Entered.none hst) h.closed h.one hnoted hfilled

end

theorem filled_of_child (hk : c.kind s = .compound)
    (hsome : ((c.children s).filter fun i => c.real i && w.bits i) ≠ []) : Filled w.bits s := by
  obtain ⟨x,hx⟩ := List.exists_mem_of_ne_nil _ hsome
  simp only [List.mem_filter, Bool.and_eq_true, ChartTree.mem_children] at hx
  refine ⟨fun _ => ⟨x,hx.1,hx.2.2⟩,fun hpar => ?_⟩
  rw [hk] at hpar
  cases hpar

theorem filled_of_leaf {bits : c.Bits} (hc : c.kind s ≠ .compound) (hp : c.kind s ≠ .parallel) :
    Filled bits s := ⟨fun hk => absurd hk hc,fun hk => absurd hk hp⟩

theorem enterDefault_turn (hh : h'.Sound hc) (hparted : c.TargetsParted) (w : c.EntryWork)
    (s : c.State) (rest : List c.State) (h : w.Descent hc) (hstack : w.stack = s :: rest) :
    ∃ w', (w.popped rest).enterDefault h' s = some w' ∧ w'.Descent hc ∧
      w'.todo.card < w.todo.card := by
  obtain ⟨hs,-,hst,hnoted⟩ := h.popped hstack
  by_cases hk : c.kind s = .compound
  · obtain ⟨i,t,hi,hip,ht,hne,hall⟩ := initialOf_spec hc hk
    have hlen : ((c.children s).filter fun i => c.real i && (w.popped rest).bits i).length ≤ 1 :=
      h.children_length hk
    by_cases hnone : ((c.children s).filter fun i => c.real i && (w.popped rest).bits i) = []
    · have hclear : ∀ x, w.bits x = true → ¬hc.tree.Under x s := fun x hx => h.clear hnone hx
      have hfree := hnoted.free hclear
      have hcollect := collectPseudoTransition_eq ht hip (hnoted.room hfree) hfree
      obtain ⟨w',hw',hent,hkeeps⟩ := enterTargets_entered hc hh false
        (w := { w.popped rest with
          pseudoByState := Function.update (w.popped rest).pseudoByState s (some t)
          pseudoOrder := (w.popped rest).pseudoOrder ++ [t] })
        (hst.of_eq rfl rfl) h.closed nofun (fun y hy => (hall y hy).1)
        (fun y hy hhist p hp x hx => by
          obtain rfl : p = s := Option.some.inj (hp.symm.trans ((hall y hy).2.2 hhist))
          exact hclear x hx)
        ((hparted t).imp fun hyz => hyz.before hc hh)
      have hsame := hkeeps.same rfl
      refine ⟨w',?_,h.fill hstack hk hclear hh hparted rfl hne
        (fun y hy => ⟨(hall y hy).1,(hall y hy).2.1⟩) (hent.of_eq rfl rfl) hsame.1 ?_⟩
      · simp [enterDefault, hk, hi, ht, hnone, hcollect, hw']
      · rw [hsame.2, List.length_append]
        exact le_rfl
    · refine ⟨w.popped rest,?_,h.pass hstack (filled_of_child hk hnone)⟩
      simp [enterDefault, hk, hi, Nat.not_lt.2 hlen, hnone]
  · by_cases hp : c.kind s = .parallel
    · have hxs : ∀ x, x ∈ ((c.children s).filter c.real).reverse ↔
          c.parents x = some s ∧ c.real x = true := by simp
      obtain ⟨w',hw',hent,hsame⟩ := activateAll_entered hst true fun x hx => ((hxs x).1 hx).2
      exact ⟨w',by simp only [enterDefault, hp, hw'],h.regions hstack hp hxs hent hsame⟩
    · refine ⟨w.popped rest,?_,h.pass hstack (filled_of_leaf hk hp)⟩
      cases hkind : c.kind s <;> simp_all [enterDefault]

theorem activateInitialTargets_entered (hc : c.WellFormed) {b : c.State}
    (hw : w.Stacked) (hclosed : hc.tree.Closed (on w.bits)) (hb : w.bits b = true)
    (hys : ∀ y ∈ ys, c.kind y ≠ .initial ∧ hc.tree.Under y b ∧
      ((c.kind y).history = true → c.parents y = some b)) :
    ∃ w', activateInitialTargets b ys w = some w' ∧
      w.Entered w' (hc.ups (ys.flatMap (goals {}))) ∧ w.SamePseudo w' := by
  induction ys generalizing w with
  | nil =>
    refine ⟨w,rfl,?_,rfl,rfl⟩
    exact (Entered.none hw).congr fun x _ => by simp [WellFormed.ups]
  | cons y ys ih =>
    obtain ⟨hi,hunder,hparent⟩ := hys y (by simp)
    obtain ⟨v,hv,hent,hsame⟩ : ∃ v, w.activateInitialTarget b y = some v ∧
        w.Entered v (hc.ups (goals {} y)) ∧ w.SamePseudo v := by
      cases hy : (c.kind y).history with
      | false =>
        obtain ⟨v,hv,hent,hsame⟩ := activateTargetPath_entered hc hw hclosed
          (real_of_target hy hi) hb hunder.1 hunder.2
        refine ⟨v,by simp [activateInitialTarget, hy, hv],?_,hsame⟩
        rw [goals_of_not_history hy]
        refine hent.congr fun a _ => ?_
        simp [WellFormed.ups, AndOrTree.up]
      | true =>
        obtain ⟨p,t,hp,ht,-,hall⟩ := history_default hc hy
        obtain rfl : p = b := Option.some.inj (hp.symm.trans (hparent hy))
        obtain ⟨v,hv,hent,hsame⟩ := activateTargetPaths_entered hc hw hclosed hb
          fun x hx => ⟨(hall x hx).1,(hall x hx).2⟩
        have hgoals : goals {} y = c.transitionTargets t := by
          simp [goals, hy, defaultTargets, ht]
        exact ⟨v,by simp [activateInitialTarget, hy, ht, hv],hgoals ▸ hent,hsame⟩
    obtain ⟨w',hw',hent',hsame'⟩ := ih hent.stacked
      (hc.entered_closed hent hclosed (hc.closed_ups _)) (hent.mono hb)
      fun z hz => hys z (by simp [hz])
    refine ⟨w',by simp [activateInitialTargets, hv, hw'],?_,hsame.trans hsame'⟩
    rw [List.flatMap_cons, hc.ups_append]
    exact hent.trans hent'

theorem enterInitial_turn (hparted : c.TargetsParted) (w : c.EntryWork) (s : c.State)
    (rest : List c.State) (h : w.Descent hc) (hstack : w.stack = s :: rest) :
    ∃ w', (w.popped rest).enterInitial s = some w' ∧ w'.Descent hc ∧
      w'.todo.card < w.todo.card := by
  obtain ⟨hs,-,hst,hnoted⟩ := h.popped hstack
  by_cases hk : c.kind s = .compound
  · obtain ⟨i,t,hi,hip,ht,hne,hall⟩ := initialOf_spec hc hk
    have hlen : ((c.children s).filter fun i => c.real i && (w.popped rest).bits i).length ≤ 1 :=
      h.children_length hk
    by_cases hnone : ((c.children s).filter fun i => c.real i && (w.popped rest).bits i) = []
    · have hclear : ∀ x, w.bits x = true → ¬hc.tree.Under x s := fun x hx => h.clear hnone hx
      have hfree := hnoted.free hclear
      obtain ⟨v,hv,hent,hsame⟩ := activateInitialTargets_entered hc hst h.closed hs hall
      let w' : c.EntryWork :=
        { v with pseudoByState := Function.update v.pseudoByState s (some t) }
      have hent' : (w.popped rest).Entered w' (hc.ups ((c.transitionTargets t).flatMap (goals {}))) :=
        ⟨hent.bits,hent.stack,hent.stacked.of_eq rfl rfl⟩
      have hby : w'.pseudoByState = Function.update w.pseudoByState s (some t) :=
        congrArg (fun f => Function.update f s (some t)) hsame.1
      have horder : w'.pseudoOrder.length ≤ w.pseudoOrder.length+1 :=
        (congrArg List.length hsame.2).le.trans (Nat.le_succ _)
      refine ⟨w',?_,h.fill hstack hk hclear (HistoryBuffer.sound_empty hc) hparted rfl hne
        (fun y hy => ⟨(hall y hy).1,(hall y hy).2.1⟩) hent' hby horder⟩
      simp [enterInitial, hk, hi, ht, hnone, hfree, hv, w']
    · refine ⟨w.popped rest,?_,h.pass hstack (filled_of_child hk hnone)⟩
      simp [enterInitial, hk, hi, Nat.not_lt.2 hlen, hnone]
  · by_cases hp : c.kind s = .parallel
    · have hxs : ∀ x, x ∈ (c.children s).filter c.real ↔
          c.parents x = some s ∧ c.real x = true := by simp
      obtain ⟨w',hw',hent,hsame⟩ := activateAll_entered hst false fun x hx => ((hxs x).1 hx).2
      exact ⟨w',by simp only [enterInitial, hp, hw'],h.regions hstack hp hxs hent hsame⟩
    · refine ⟨w.popped rest,?_,h.pass hstack (filled_of_leaf hk hp)⟩
      cases hkind : c.kind s <;> simp_all [enterInitial]

end Turns

end EntryWork

/-! ### Every configuration an instance shows is legal -/

variable {c : ChartImpl} {bits : c.Bits}

section Validate

theorem activeStates_pairwise (hc : c.WellFormed) (bits : c.Bits) :
    (c.activeStates bits).Pairwise fun x y =>
      (c.states x).documentOrder < (c.states y).documentOrder := by
  have hsorted : c.documentOrderIndices.Pairwise fun x y =>
      (c.states x).documentOrder < (c.states y).documentOrder := by
    have hle : c.documentOrderIndices.Pairwise fun x y =>
        keyLe [(c.states x).documentOrder, x] [(c.states y).documentOrder, y] = true :=
      sortedBy_pairwise
    refine (hle.and c.documentOrderIndices_nodup).imp fun {x y} hxy => ?_
    refine lt_of_le_of_ne (head_le_of_keyLe hxy.1) fun heq => ?_
    exact hxy.2 (hc.orders x y heq)
  exact hsorted.filter _

theorem mem_activeStates {x : c.State} : x ∈ c.activeStates bits ↔ bits x = true := by
  simp [activeStates, ChartTree.mem_documentOrderIndices]

theorem stateError_none (hl : Legal bits) {previous : Option c.State} {l : List c.State}
    (hsorted : l.Pairwise fun x y => (c.states x).documentOrder < (c.states y).documentOrder)
    (hprevious : ∀ p ∈ previous, ∀ x ∈ l, (c.states p).documentOrder < (c.states x).documentOrder)
    (hbits : ∀ x ∈ l, bits x = true) : c.stateError bits previous l = none := by
  induction l generalizing previous with
  | nil => rfl
  | cons x l ih =>
    have hx := hbits x (by simp)
    have hpseudo : (c.kind x).pseudo = false := by simpa [real] using hl.real x hx
    have horder : (previous.any fun p =>
        decide ((c.states x).documentOrder ≤ (c.states p).documentOrder)) = false := by
      cases previous with
      | none => rfl
      | some p => simpa using hprevious p rfl x (by simp)
    have hparent : ((c.parents x).any fun p => !bits p) = false := by
      cases hp : c.parents x with
      | none => rfl
      | some p => simp [hl.parent x p hx hp]
    obtain ⟨hhead,htail⟩ := List.pairwise_cons.1 hsorted
    have hrest : c.stateError bits (some x) l = none := by
      refine ih htail (fun p hp y hy => ?_) fun y hy => hbits y (by simp [hy])
      rw [← Option.mem_some.1 hp]
      exact hhead y hy
    simp [stateError, hpseudo, hx, horder, hparent, hrest]

theorem childrenError_none (hl : Legal bits) {s : c.State} (hs : bits s = true) :
    c.childrenError bits s = none := by
  cases hk : c.kind s with
  | compound =>
    obtain ⟨x,⟨hp,hreal,hx⟩,hunique⟩ := hl.compound s hs hk
    have hactive : ((c.children s).filter c.real).filter bits = [x] := by
      refine List.perm_singleton.1 ((List.perm_ext_iff_of_nodup ?_ ?_).2 fun y => ?_)
      · exact ((c.children_nodup s).filter _).filter _
      · exact List.nodup_singleton x
      simp only [List.mem_filter, ChartTree.mem_children, List.mem_singleton]
      constructor
      · rintro ⟨⟨hyp,hyr⟩,hy⟩
        exact hunique y ⟨hyp,hyr,hy⟩
      · rintro rfl
        exact ⟨⟨hp,hreal⟩,hx⟩
    simp [childrenError, hk, hactive]
  | parallel =>
    have hactive : ((c.children s).filter c.real).filter bits = (c.children s).filter c.real := by
      refine List.filter_eq_self.2 fun x hx => ?_
      obtain ⟨hp,hreal⟩ := List.mem_filter.1 hx
      exact hl.parallel s hs hk x (c.mem_children.1 hp) hreal
    simp [childrenError, hk, hactive]
  | atomic => simp [childrenError, hk]
  | initial => simp [childrenError, hk]
  | final => simp [childrenError, hk]
  | historyShallow => simp [childrenError, hk]
  | historyDeep => simp [childrenError, hk]

theorem exists_active_leaf (hc : c.WellFormed) (hl : Legal bits) {s : c.State}
    (hs : bits s = true) : ∃ x, bits x = true ∧ (c.kind x).leaf = true := by
  -- by induction on the levels left below the state
  induction hn : c.stateCount - c.depths s generalizing s with
  | zero =>
    have hlt := hc.depths_lt s
    omega
  | succ n ih =>
    have hchild : ∀ x, c.parents x = some s → bits x = true →
        ∃ x, bits x = true ∧ (c.kind x).leaf = true := by
      intro x hp hx
      have hd := hc.depth hp
      exact ih hx (by omega)
    cases hk : c.kind s with
    | compound =>
      obtain ⟨x,⟨hp,-,hx⟩,-⟩ := hl.compound s hs hk
      exact hchild x hp hx
    | parallel =>
      obtain ⟨x,hp,hreal⟩ := hc.parallel s hk
      exact hchild x hp (hl.parallel s hs hk x hp hreal)
    | atomic => exact ⟨s,hs,by rw [hk]; rfl⟩
    | final => exact ⟨s,hs,by rw [hk]; rfl⟩
    | initial | historyShallow | historyDeep =>
      have hreal := hl.real s hs
      simp [real, hk, StateKind.pseudo] at hreal

theorem validate_of_legal (hc : c.WellFormed) (hl : Legal bits) :
    c.validateDenseConfiguration bits (c.activeStates bits) = .ok := by
  have hne : c.activeStates bits ≠ [] := by
    intro hnil
    have hroot := mem_activeStates.2 hl.root
    rw [hnil] at hroot
    cases hroot
  have hstates : c.stateError bits none (c.activeStates bits) = none :=
    stateError_none hl (activeStates_pairwise hc bits) (by simp) fun x => mem_activeStates.1
  have hchildren : (c.activeStates bits).findSome? (c.childrenError bits) = none :=
    List.findSome?_eq_none_iff.2 fun x hx => childrenError_none hl (mem_activeStates.1 hx)
  obtain ⟨x,hx,hleaf⟩ := exists_active_leaf hc hl hl.root
  have hany : ((c.activeStates bits).any fun s => (c.kind s).leaf) = true :=
    List.any_eq_true.2 ⟨x,mem_activeStates.2 hx,hleaf⟩
  simp [validateDenseConfiguration, hne, hl.root, hstates, hchildren, hany]

end Validate

theorem WellFormed.root_real (hc : c.WellFormed) : c.real c.root = true := by
  rw [real]
  rcases hc.rootKind with h | h
  · rw [h]
    rfl
  · cases hk : c.kind c.root <;> rw [hk] at h <;> first | rfl | cases h

theorem initial_legal (hc : c.WellFormed) (hparted : c.TargetsParted) :
    ∃ w, buildInitialConfiguration c = some w ∧ Legal w.bits := by
  let v : c.EntryWork := { bits := fun _ => false }
  have hv : v.Stacked := ⟨List.nodup_nil,by simp [v],by simp⟩
  obtain ⟨w,hw,hent,hsame⟩ := EntryWork.activate_entered hv false hc.root_real
  have honly : ∀ x, w.bits x = true ↔ x = c.root := by
    intro x
    simpa using hent.bits x
  have hdescent : w.Descent hc := by
    refine ⟨hent.stacked,?_,?_,(honly _).2 rfl,?_,?_⟩
    · intro x hx p hp
      have hnone := (hc.root x).2 ((honly x).1 hx)
      exact absurd (hnone.symm.trans hp) (by simp)
    · intro p _ a ha b hb _ _
      rw [(honly a).1 ha, (honly b).1 hb]
    · exact EntryWork.Noted.keep ⟨by simp [v],by simp [v]⟩ hent hsame
    · intro x hx hnot
      exact absurd ((hent.stack x).2 (Or.inr ⟨(honly x).1 hx,rfl⟩)) hnot
  obtain ⟨w',hw',hd,hstack⟩ := EntryWork.drain_descent (fun w s => w.enterInitial s)
    (EntryWork.enterInitial_turn hparted) w.todo_card_le hdescent
  have hlegal := hd.legal hstack
  refine ⟨w',?_,hlegal⟩
  rw [← EntryWork.enterInitialDescendants_eq] at hw'
  have hactivate : EntryWork.activate { bits := fun _ => false } false c.root = some w := hw
  simp [buildInitialConfiguration, hactivate, hw', validate_of_legal hc hlegal]

section Select

structure Picked (bits : c.Bits) (s : c.Selected) : Prop where
  exits : s.exits = computeExitSet bits s.transition
  source : c.source s.transition = some s.source
  active : bits s.source = true

def Disjoint (s t : c.Selected) : Prop := ∀ x, s.exits x = true → t.exits x = true → False

theorem disjoint_iff {s t : c.Selected} :
    exitSetsIntersect s.exits t.exits = false ↔ Disjoint s t := by
  simp only [exitSetsIntersect, List.any_eq_false, List.mem_finRange, Bool.and_eq_true, not_and,
    forall_true_left]
  rfl

theorem Disjoint.symm {s t : c.Selected} (h : Disjoint s t) : Disjoint t s :=
  fun x ht hs => h x hs ht

variable {selected : List c.Selected}

theorem filterCandidate_spec {candidate : c.Selected} (hpicked : ∀ s ∈ selected, Picked bits s)
    (hpair : selected.Pairwise Disjoint) (hcandidate : Picked bits candidate) :
    (∀ s ∈ filterCandidate selected candidate, Picked bits s) ∧
      (filterCandidate selected candidate).Pairwise Disjoint := by
  rw [filterCandidate]
  split
  · exact ⟨hpicked,hpair⟩
  constructor
  · intro s hs
    rcases List.mem_append.1 hs with hs | hs
    · exact hpicked s (List.mem_filter.1 hs).1
    · rw [List.mem_singleton.1 hs]
      exact hcandidate
  · refine List.pairwise_append.2 ⟨hpair.filter _,List.pairwise_singleton _ _,?_⟩
    intro s hs t ht
    rw [List.mem_singleton.1 ht]
    have hnot := (List.mem_filter.1 hs).2
    rw [Bool.not_eq_true'] at hnot
    exact (disjoint_iff.1 hnot).symm

section

variable (hc : c.WellFormed) (hl : Legal bits)

include hc hl

variable {enabled : c.State → c.Transition → Bool} {trigger : ChartTrigger}

theorem candidateOf_spec {leaf : c.State} (hleaf : bits leaf = true) {source : c.State}
    {t : c.Transition} (h : candidateOf enabled trigger leaf = some (source, t)) :
    c.source t = some source ∧ bits source = true := by
  obtain ⟨a,ha,hfind⟩ := List.exists_of_findSome?_eq_some h
  obtain ⟨t',ht',heq⟩ := Option.map_eq_some_iff.1 hfind
  obtain ⟨rfl,rfl⟩ := Prod.mk.inj heq
  constructor
  · have hmem := List.mem_of_find?_eq_some ht'
    simpa [ChartTables.transitionIndices] using hmem
  · have hclosed : hc.tree.Closed (on bits) := fun x hx p hp => hl.parent x p hx hp
    exact hclosed.mem_of_below hleaf (hc.mem_chain_iff.1 ha)

theorem selectFrom_spec {leaves : List c.State} (hleaves : ∀ x ∈ leaves, bits x = true)
    {seen : List c.Transition} (hpicked : ∀ s ∈ selected, Picked bits s)
    (hpair : selected.Pairwise Disjoint) :
    (∀ s ∈ selectFrom bits enabled trigger leaves seen selected, Picked bits s) ∧
      (selectFrom bits enabled trigger leaves seen selected).Pairwise Disjoint := by
  induction leaves generalizing seen selected with
  | nil => exact ⟨hpicked,hpair⟩
  | cons leaf rest ih =>
    have hrest : ∀ x ∈ rest, bits x = true := fun x hx => hleaves x (by simp [hx])
    cases hcand : candidateOf enabled trigger leaf with
    | none =>
      simp only [selectFrom, hcand]
      exact ih hrest hpicked hpair
    | some found =>
      obtain ⟨source,t⟩ := found
      simp only [selectFrom, hcand]
      split
      · exact ih hrest hpicked hpair
      obtain ⟨hsource,hactive⟩ := candidateOf_spec hc hl (hleaves leaf (by simp)) hcand
      have hcandidate : Picked bits ⟨t,source,computeExitSet bits t⟩ := ⟨rfl,hsource,hactive⟩
      obtain ⟨hpicked',hpair'⟩ := filterCandidate_spec hpicked hpair hcandidate
      exact ih hrest hpicked' hpair'

theorem selectTransitions_spec (enabled : c.State → c.Transition → Bool) (trigger : ChartTrigger) :
    (∀ s ∈ selectTransitions bits enabled trigger, Picked bits s) ∧
      (selectTransitions bits enabled trigger).Pairwise Disjoint := by
  refine selectFrom_spec hc hl (fun x hx => ?_) (by simp) List.Pairwise.nil
  exact mem_activeStates.1 (List.mem_filter.1 hx).1

end

end Select

end Salts.CFlow.ChartImpl
