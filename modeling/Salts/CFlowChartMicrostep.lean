import Salts.CFlowChartDescent

/-!
A microstep from a legal configuration.  What survives the exits is closed towards the root, keeps
the domain of every selected transition and has nothing inside it; so the targets can be entered
whatever histories they restore, and only the domains and the states entered lack children.
-/

namespace Salts.CFlow.ChartImpl

open AndOrTree

variable {c : ChartImpl} {bits : c.Bits}

theorem Legal.closed (hc : c.WellFormed) (hl : Legal bits) : hc.tree.Closed (on bits) :=
  fun x hx p hp => hl.parent x p hx hp

theorem Legal.oneChild (hc : c.WellFormed) (hl : Legal bits) : hc.tree.OneChild (on bits) := by
  intro p hp a ha b hb hap hbp
  have hpbit := hl.parent a p ha hap
  obtain ⟨x,-,hunique⟩ := hl.compound p hpbit hp
  have hax := hunique a ⟨hap,hl.real a ha,ha⟩
  have hbx := hunique b ⟨hbp,hl.real b hb,hb⟩
  exact hax.trans hbx.symm

theorem WellFormed.below_root (hc : c.WellFormed) (x : c.State) : hc.tree.Below x c.root := by
  induction hd : c.depths x generalizing x with
  | zero =>
    cases hp : c.parents x with
    | none => exact (hc.root x).1 hp ▸ .refl
    | some p =>
      have hdp := hc.depth hp
      omega
  | succ n ih =>
    cases hp : c.parents x with
    | none => exact (hc.root x).1 hp ▸ .refl
    | some p =>
      have hdp := hc.depth hp
      exact (Below.of_parent hp).trans (ih p (by omega))

def survivors (bits : c.Bits) (selected : List c.Selected) : c.Bits :=
  fun s => bits s && !exitUnion selected s

variable {x d : c.State}

theorem survivors_iff {selected : List c.Selected} :
    survivors bits selected x = true ↔ bits x = true ∧ ∀ s ∈ selected, s.exits x = false := by
  simp [survivors, exitUnion]

section Exits

variable (hc : c.WellFormed) {s t : c.Selected}

include hc

theorem Picked.exits_iff (hs : Picked bits s) (hne : c.transitionTargets s.transition ≠ []) :
    s.exits x = true ↔ bits x = true ∧
      ∀ d, c.transitionDomains s.transition = some d → hc.tree.Under x d := by
  rw [hs.exits]
  simp only [computeExitSet, ChartTables.targetless, hne, decide_false, Bool.false_and,
    Bool.false_eq_true, if_false, Bool.and_eq_true]
  cases hd : c.transitionDomains s.transition with
  | none => simp
  | some d =>
    simp only [Option.all_some, hc.isProperDescendant_iff, Option.some.injEq, forall_eq',
      AndOrTree.Under]
    tauto

theorem Picked.targets_of_exits (hs : Picked bits s) (hx : s.exits x = true) :
    c.transitionTargets s.transition ≠ [] := by
  intro hnil
  rw [hs.exits] at hx
  simp [computeExitSet, ChartTables.targetless, hnil, hc.targetNamed] at hx

section

variable (hl : Legal bits) (hs : Picked bits s)

include hl hs

theorem Picked.domain (hd : c.transitionDomains s.transition = some d) :
    c.kind d = .compound ∧ bits d = true ∧
      ∀ y ∈ c.transitionTargets s.transition, hc.tree.Under y d := by
  obtain ⟨hk,htargets,hsource⟩ := hc.domain _ d hd
  refine ⟨hk,?_,fun y hy => ?_⟩
  · exact (hl.closed hc).mem_of_below hs.active (hc.isDescendant_iff.1 (hsource _ hs.source))
  · have hy' := hc.isProperDescendant_iff.1 (htargets y hy)
    exact ⟨hy'.2,hy'.1⟩

theorem Picked.exits_child (hne : c.transitionTargets s.transition ≠ [])
    (hd : c.transitionDomains s.transition = some d) :
    ∃ x, c.parents x = some d ∧ bits x = true ∧ s.exits x = true := by
  obtain ⟨hk,hbit,-⟩ := hs.domain hc hl hd
  obtain ⟨x,⟨hp,-,hx⟩,-⟩ := hl.compound d hbit hk
  refine ⟨x,hp,hx,(hs.exits_iff hc hne).2 ⟨hx,fun e he => ?_⟩⟩
  obtain rfl : d = e := Option.some.inj (hd.symm.trans he)
  exact .of_parent hp

theorem domains_apart (ht : Picked bits t) (hsne : c.transitionTargets s.transition ≠ [])
    (htne : c.transitionTargets t.transition ≠ []) (hdisj : Disjoint s t) :
    ∃ d e, c.transitionDomains s.transition = some d ∧ c.transitionDomains t.transition = some e ∧
      ¬hc.tree.Below d e ∧ ¬hc.tree.Below e d := by
  -- a transition without a domain would exit the child of the other's domain, or the root
  have hdomain : ∀ {s t : c.Selected}, Picked bits s → Picked bits t →
      c.transitionTargets s.transition ≠ [] → c.transitionTargets t.transition ≠ [] →
      Disjoint s t → ∃ d, c.transitionDomains s.transition = some d := by
    intro s t hs ht hsne htne hdisj
    cases hd : c.transitionDomains s.transition with
    | some d => exact ⟨d,rfl⟩
    | none =>
      have hall : ∀ x, bits x = true → s.exits x = true := by
        intro x hx
        exact (hs.exits_iff hc hsne).2 ⟨hx,by simp [hd]⟩
      exfalso
      cases he : c.transitionDomains t.transition with
      | some e =>
        obtain ⟨x,-,hx,hexit⟩ := ht.exits_child hc hl htne he
        exact hdisj x (hall x hx) hexit
      | none =>
        have hexit := (ht.exits_iff hc htne).2 ⟨hl.root,by simp [he]⟩
        exact hdisj c.root (hall _ hl.root) hexit
  have happart : ∀ {s t : c.Selected} {d e : c.State}, Picked bits s → Picked bits t →
      c.transitionTargets s.transition ≠ [] → c.transitionTargets t.transition ≠ [] →
      Disjoint s t → c.transitionDomains s.transition = some d →
      c.transitionDomains t.transition = some e → ¬hc.tree.Below d e := by
    intro s t d e hs ht hsne htne hdisj hd he hde
    obtain ⟨x,hp,hx,hexit⟩ := hs.exits_child hc hl hsne hd
    refine hdisj x hexit ((ht.exits_iff hc htne).2 ⟨hx,fun e' he' => ?_⟩)
    obtain rfl : e = e' := Option.some.inj (he.symm.trans he')
    exact (Under.of_parent hp).trans_below hde
  obtain ⟨d,hd⟩ := hdomain hs ht hsne htne hdisj
  obtain ⟨e,he⟩ := hdomain ht hs htne hsne hdisj.symm
  exact ⟨d,e,hd,he,happart hs ht hsne htne hdisj hd he,happart ht hs htne hsne hdisj.symm he hd⟩

end

end Exits

section Survivors

variable (hc : c.WellFormed) (hl : Legal bits) {selected : List c.Selected}
  (hpicked : ∀ s ∈ selected, Picked bits s)

include hc hl hpicked

theorem survivors_closed : hc.tree.Closed (on (survivors bits selected)) := by
  intro x hx p hp
  obtain ⟨hbit,hexits⟩ := survivors_iff.1 hx
  have hparent := hp
  refine survivors_iff.2 ⟨hl.parent x p hbit hparent,fun s hs => ?_⟩
  by_contra hexit
  rw [Bool.not_eq_false] at hexit
  have hne := (hpicked s hs).targets_of_exits hc hexit
  have hp' := ((hpicked s hs).exits_iff hc hne).1 hexit
  have hx' : s.exits x = true := by
    refine ((hpicked s hs).exits_iff hc hne).2 ⟨hbit,fun d hd => ?_⟩
    exact (Below.of_parent hp).trans_under (hp'.2 d hd)
  rw [hexits s hs] at hx'
  cases hx'

omit hpicked in
theorem survivors_oneChild : hc.tree.OneChild (on (survivors bits selected)) :=
  fun p hp a ha b hb => hl.oneChild hc p hp a (survivors_iff.1 ha).1 b (survivors_iff.1 hb).1

omit hl in
theorem survivors_clear {s : c.Selected} (hs : s ∈ selected)
    (hne : c.transitionTargets s.transition ≠ []) (hx : survivors bits selected x = true) :
    ∃ d, c.transitionDomains s.transition = some d ∧ ¬hc.tree.Under x d := by
  obtain ⟨hbit,hexits⟩ := survivors_iff.1 hx
  by_contra hall
  have hexit : s.exits x = true := by
    refine ((hpicked s hs).exits_iff hc hne).2 ⟨hbit,fun d hd => ?_⟩
    by_contra hunder
    exact hall ⟨d,hd,hunder⟩
  rw [hexits s hs] at hexit
  cases hexit

theorem domain_survives (hpair : selected.Pairwise Disjoint) {s : c.Selected} (hs : s ∈ selected)
    (hne : c.transitionTargets s.transition ≠ [])
    (hd : c.transitionDomains s.transition = some d) : survivors bits selected d = true := by
  obtain ⟨-,hbit,-⟩ := (hpicked s hs).domain hc hl hd
  refine survivors_iff.2 ⟨hbit,fun t ht => ?_⟩
  by_contra hexit
  rw [Bool.not_eq_false] at hexit
  have htne := (hpicked t ht).targets_of_exits hc hexit
  have hunder := (((hpicked t ht).exits_iff hc htne).1 hexit).2
  by_cases hst : s = t
  · subst hst
    exact (hunder d hd).2 rfl
  · have : Std.Symm (Disjoint (c := c)) := ⟨fun _ _ => Disjoint.symm⟩
    have hdisj := hpair.forall hs ht hst
    obtain ⟨d',e,hd',he,hapart,-⟩ :=
      domains_apart hc hl (hpicked s hs) (hpicked t ht) hne htne hdisj
    obtain rfl : d = d' := Option.some.inj (hd.symm.trans hd')
    exact hapart (hunder e he).1

end Survivors

section Enter

variable (hc : c.WellFormed) (hparted : c.TargetsParted) (hl : Legal bits)
  {selected : List c.Selected} (hpicked : ∀ s ∈ selected, Picked bits s)
  (hpair : selected.Pairwise Disjoint) {h : c.HistoryBuffer} (hh : h.Sound hc)

include hc hl hpicked hpair hh

omit hh in
theorem goals_apart {s t : c.Selected} (hs : s ∈ selected) (ht : t ∈ selected)
    (hdisj : Disjoint s t) {y z : c.State} (hy : y ∈ c.transitionTargets s.transition)
    (hz : z ∈ c.transitionTargets t.transition) :
    ∃ d e, survivors bits selected d = true ∧ survivors bits selected e = true ∧
      ¬hc.tree.Below d e ∧ ¬hc.tree.Below e d ∧ hc.tree.Under y d ∧ hc.tree.Under z e := by
  have hsne := List.ne_nil_of_mem hy
  have htne := List.ne_nil_of_mem hz
  obtain ⟨d,e,hd,he,hde,hed⟩ := domains_apart hc hl (hpicked s hs) (hpicked t ht) hsne htne hdisj
  obtain ⟨-,-,hdy⟩ := (hpicked s hs).domain hc hl hd
  obtain ⟨-,-,hez⟩ := (hpicked t ht).domain hc hl he
  exact ⟨d,e,domain_survives hc hl hpicked hpair hs hsne hd,
    domain_survives hc hl hpicked hpair ht htne he,hde,hed,hdy y hy,hez z hz⟩

include hparted

theorem selected_before :
    ((selected.map (·.transition)).flatMap c.transitionTargets).Pairwise (Before hc h) := by
  refine List.pairwise_flatMap.2 ⟨fun t _ => (hparted t).imp fun hyz => hyz.before hc hh,?_⟩
  refine List.pairwise_map.2 (hpair.imp_of_mem fun {s t} hs ht hdisj y hy z hz => ?_)
  obtain ⟨d,e,-,-,hde,hed,hyd,hze⟩ := goals_apart hc hl hpicked hpair hs ht hdisj hy hz
  intro _ p hp x hx hxp
  have hxd := goals_under hc hh hx hyd
  have hxe := hxp.trans_below (hze.below_parent hp)
  rcases hxd.1.total hxe.1 with hb | hb
  · exact hde hb
  · exact hed hb

theorem selected_agree {x x' : c.State}
    (hx : x ∈ ((selected.map (·.transition)).flatMap c.transitionTargets).flatMap (goals h))
    (hx' : x' ∈ ((selected.map (·.transition)).flatMap c.transitionTargets).flatMap (goals h)) :
    hc.tree.Agree x x' := by
  simp only [List.mem_flatMap, List.mem_map] at hx hx'
  obtain ⟨y,⟨-,⟨s,hs,rfl⟩,hy⟩,hx⟩ := hx
  obtain ⟨z,⟨-,⟨t,ht,rfl⟩,hz⟩,hx'⟩ := hx'
  by_cases hst : s = t
  · subst hst
    have : Std.Symm (GoalsAgree hc h) := ⟨fun _ _ hyz => hyz.symm hc⟩
    exact List.Pairwise.forall_of_forall (fun y _ => goalsAgree_self hc hh hparted y)
      ((hparted s.transition).imp fun hyz => hyz.goalsAgree hc hh) hy hz x hx x' hx'
  · have : Std.Symm (Disjoint (c := c)) := ⟨fun _ _ => Disjoint.symm⟩
    obtain ⟨d,e,hd,he,hde,hed,hyd,hze⟩ :=
      goals_apart hc hl hpicked hpair hs ht (hpair.forall hs ht hst) hy hz
    exact (survivors_oneChild hc hl).agree_of_apart (survivors_closed hc hl hpicked) hd he hde hed
      (goals_under hc hh hx hyd).1 (goals_under hc hh hx' hze).1

omit hparted in
theorem selected_fits
    (hx : x ∈ ((selected.map (·.transition)).flatMap c.transitionTargets).flatMap (goals h)) :
    hc.tree.Fits (on (survivors bits selected)) x := by
  simp only [List.mem_flatMap, List.mem_map] at hx
  obtain ⟨y,⟨-,⟨s,hs,rfl⟩,hy⟩,hx⟩ := hx
  have hne := List.ne_nil_of_mem hy
  intro z hz
  obtain ⟨d,hd,-⟩ := survivors_clear hc hpicked hs hne hz
  obtain ⟨-,-,hunder⟩ := (hpicked s hs).domain hc hl hd
  have hdomain := domain_survives hc hl hpicked hpair hs hne hd
  refine (survivors_oneChild hc hl).fits_of_cleared (survivors_closed hc hl hpicked) hdomain
    (fun v hv hvd => ?_) (goals_under hc hh hx (hunder y hy)).1 z hz
  obtain ⟨d',hd',hnot⟩ := survivors_clear hc hpicked hs hne hv
  obtain rfl : d = d' := Option.some.inj (hd.symm.trans hd')
  by_contra hvne
  exact hnot ⟨hvd,hvne⟩

theorem enterSelected_descent :
    ∃ w, EntryWork.enterSelected h (selected.map (·.transition))
        { bits := survivors bits selected } = some w ∧ w.Descent hc := by
  let ys := (selected.map (·.transition)).flatMap c.transitionTargets
  let v : c.EntryWork := { bits := survivors bits selected }
  have hmem : ∀ y ∈ ys, ∃ s ∈ selected, y ∈ c.transitionTargets s.transition := by
    intro y hy
    simp only [ys, List.mem_flatMap, List.mem_map] at hy
    obtain ⟨-,⟨s,hs,rfl⟩,hy⟩ := hy
    exact ⟨s,hs,hy⟩
  have hv : v.Stacked := ⟨List.nodup_nil,by simp [v],fun x hx => hl.real x (survivors_iff.1 hx).1⟩
  have hvclosed := survivors_closed hc hl hpicked
  have hvnoted : v.Noted hc := ⟨by simp [v],by simp [v]⟩
  have hclear : ∀ y ∈ ys, (c.kind y).history = true → ∀ p, c.parents y = some p →
      ∀ x, v.bits x = true → ¬hc.tree.Under x p := by
    intro y hy _ p hp x hx hxp
    obtain ⟨s,hs,hy⟩ := hmem y hy
    obtain ⟨d,hd,hnot⟩ := survivors_clear hc hpicked hs (List.ne_nil_of_mem hy) hx
    obtain ⟨-,-,hunder⟩ := (hpicked s hs).domain hc hl hd
    exact hnot (hxp.trans_below ((hunder y hy).below_parent hp))
  have hinitial : ∀ y ∈ ys, c.kind y ≠ .initial := by
    intro y hy
    obtain ⟨s,-,hy⟩ := hmem y hy
    exact hc.targetKind _ y hy
  obtain ⟨w,hw,hent,hkeeps⟩ := enterTargets_entered hc hh true hv hvclosed (fun _ => hvnoted)
    hinitial hclear (selected_before hc hparted hl hpicked hpair hh)
  refine ⟨w,by rw [enterSelected_eq]; exact hw,?_⟩
  have hclosed := hc.entered_closed hent hvclosed (hc.closed_ups _)
  -- every target with its domain brings an active state inside the domain
  have hgoal : ∀ s ∈ selected, c.transitionTargets s.transition ≠ [] →
      ∃ x, w.bits x = true ∧
        ∀ d, c.transitionDomains s.transition = some d → hc.tree.Under x d := by
    intro s hs hne
    obtain ⟨y,hy⟩ := List.exists_mem_of_ne_nil _ hne
    obtain ⟨x,hx⟩ : ∃ x, x ∈ goals h y := by
      cases hhist : (c.kind y).history with
      | false => exact ⟨y,by simp [goals_of_not_history hhist]⟩
      | true =>
        obtain ⟨p,-,hnil,-⟩ := history_goals hc hh hhist
        exact List.exists_mem_of_ne_nil _ hnil
    refine ⟨x,(hent.bits x).2 (Or.inr ⟨x,?_,.refl⟩),fun d hd => ?_⟩
    · simp only [ys, List.mem_flatMap, List.mem_map]
      exact ⟨y,⟨s.transition,⟨s,hs,rfl⟩,hy⟩,hx⟩
    · obtain ⟨-,-,hunder⟩ := (hpicked s hs).domain hc hl hd
      exact goals_under hc hh hx (hunder y hy)
  refine ⟨hent.stacked,hclosed,?_,?_,hkeeps.noted rfl,?_⟩
  · rw [hent.on_eq]
    refine OneChild.union_ups (survivors_oneChild hc hl) ?_ ?_
    · exact fun x hx => selected_fits hc hl hpicked hpair hh hx
    · exact fun x hx x' hx' => selected_agree hc hparted hl hpicked hpair hh hx hx'
  · by_cases hroot : ∀ s ∈ selected, s.exits c.root = false
    · exact hent.mono (survivors_iff.2 ⟨hl.root,hroot⟩)
    simp only [not_forall, Bool.not_eq_false] at hroot
    obtain ⟨s,hs,hexit⟩ := hroot
    obtain ⟨x,hx,-⟩ := hgoal s hs ((hpicked s hs).targets_of_exits hc hexit)
    exact hclosed.mem_of_below hx (hc.below_root x)
  · intro x hx hnot
    have hold : survivors bits selected x = true := by
      rcases (hent.bits x).1 hx with hx' | hx'
      · exact hx'
      · by_contra hfalse
        exact hnot ((hent.stack x).2 (Or.inr ⟨hx',Bool.eq_false_iff.2 hfalse⟩))
    obtain ⟨hbit,hkept⟩ := survivors_iff.1 hold
    -- a surviving state whose child is exited is the domain that exits it
    have hdomain : ∀ y s, c.parents y = some x → s ∈ selected → s.exits y = true →
        c.transitionDomains s.transition = some x ∧ c.transitionTargets s.transition ≠ [] := by
      intro y s hp hs hexit
      have hne := (hpicked s hs).targets_of_exits hc hexit
      obtain ⟨d,hd,hclear'⟩ := survivors_clear hc hpicked hs hne hold
      have hyd := (((hpicked s hs).exits_iff hc hne).1 hexit).2 d hd
      have hxd := hyd.below_parent hp
      have heq : x = d := by
        by_contra hxne
        exact hclear' ⟨hxd,hxne⟩
      exact ⟨heq ▸ hd,hne⟩
    constructor
    · intro hk
      obtain ⟨y,⟨hp,-,hy⟩,-⟩ := hl.compound x hbit hk
      by_cases hexits : ∀ s ∈ selected, s.exits y = false
      · exact ⟨y,hp,hent.mono (survivors_iff.2 ⟨hy,hexits⟩)⟩
      simp only [not_forall, Bool.not_eq_false] at hexits
      obtain ⟨s,hs,hexit⟩ := hexits
      obtain ⟨hd,hne⟩ := hdomain y s hp hs hexit
      obtain ⟨g,hg,hunder⟩ := hgoal s hs hne
      obtain ⟨b,hb,hgb⟩ := (hunder x hd).1.child (hunder x hd).2
      exact ⟨b,hb,hclosed.mem_of_below hg hgb⟩
    · intro hk y hp hreal
      have hy := hl.parallel x hbit hk y hp hreal
      refine hent.mono (survivors_iff.2 ⟨hy,fun s hs => ?_⟩)
      by_contra hexit
      rw [Bool.not_eq_false] at hexit
      obtain ⟨hcompound,-⟩ := hc.domain _ x (hdomain y s hp hs hexit).1
      rw [hk] at hcompound
      cases hcompound

theorem buildTarget_legal :
    ∃ w, buildTargetConfiguration bits (exitUnion selected) h (selected.map (·.transition)) =
      some w ∧ Legal w.bits := by
  obtain ⟨v,hv,hdescent⟩ := enterSelected_descent hc hparted hl hpicked hpair hh
  obtain ⟨w,hw,hd,hstack⟩ := EntryWork.drain_descent (fun w s => w.enterDefault h s)
    (EntryWork.enterDefault_turn hh hparted) v.todo_card_le hdescent
  have hlegal := hd.legal hstack
  rw [← EntryWork.enterDefaultDescendants_eq] at hw
  have henter : EntryWork.enterSelected h (selected.map (·.transition))
      { bits := fun s => bits s && !exitUnion selected s } = some v := hv
  refine ⟨w,?_,hlegal⟩
  simp [buildTargetConfiguration, henter, hw, validate_of_legal hc hlegal]

end Enter

theorem saveAffectedHistory_sound (hc : c.WellFormed) (hl : Legal bits) (exits : c.Bits)
    {h : c.HistoryBuffer} (hh : h.Sound hc) : (saveAffectedHistory bits exits h).Sound hc := by
  let saved := fun history parent => (c.activeStates bits).filter fun state =>
    if c.kind history = .historyShallow then
      decide (c.parents state = some parent) && c.real state
    else (c.kind state).leaf && c.isProperDescendant state parent
  let affected := fun history => (c.kind history).history &&
    (c.parents history).any fun parent => exits parent
  let h' := saveAffectedHistory bits exits h
  -- a history is saved anew or left as it was
  have hcases : ∀ y, (∃ p, c.parents y = some p ∧ h'.counts y = (saved y p).length ∧
        ∀ x, h'.bits y x = true ↔ x ∈ saved y p) ∨
      (h'.counts y = h.counts y ∧ h'.bits y = h.bits y) := by
    intro y
    by_cases haff : affected y = true
    · obtain ⟨p,hp⟩ : ∃ p, c.parents y = some p := by
        cases hp : c.parents y with
        | none => simp [affected, hp] at haff
        | some p => exact ⟨p,rfl⟩
      have hcounts : h'.counts y = ((c.parents y).map fun p => (saved y p).length).getD 0 :=
        if_pos haff
      have hbits : ∀ x, h'.bits y x = (c.parents y).any fun p => decide (x ∈ saved y p) :=
        fun x => if_pos haff
      rw [hp] at hcounts
      refine Or.inl ⟨p,hp,hcounts,fun x => ?_⟩
      rw [hbits x, hp]
      exact decide_eq_true_iff
    · exact Or.inr ⟨if_neg haff,funext fun x => if_neg haff⟩
  have hactive : ∀ y p x, x ∈ saved y p → bits x = true := by
    intro y p x hx
    exact mem_activeStates.1 (List.mem_filter.1 hx).1
  refine ⟨fun y hcount => ?_,fun y x hx => ?_,fun y x p hx hp => ?_,fun y x x' hx hx' => ?_⟩
  · rcases hcases y with ⟨p,-,hlen,hbits⟩ | ⟨hcounts,hbits⟩
    · have hpos : 0 < (saved y p).length := Nat.pos_of_ne_zero (hlen ▸ hcount)
      obtain ⟨x,hx⟩ := List.exists_mem_of_length_pos hpos
      exact ⟨x,(hbits x).2 hx⟩
    · obtain ⟨x,hx⟩ := hh.kept y (hcounts ▸ hcount)
      exact ⟨x,(congrFun hbits x).trans hx⟩
  · rcases hcases y with ⟨p,-,-,hbits⟩ | ⟨-,hbits⟩
    · exact hl.real x (hactive y p x ((hbits x).1 hx))
    · exact hh.real y x ((congrFun hbits x).symm.trans hx)
  · rcases hcases y with ⟨q,hq,-,hbits⟩ | ⟨-,hbits⟩
    · obtain rfl : q = p := Option.some.inj (hq.symm.trans hp)
      have hkind := (List.mem_filter.1 ((hbits x).1 hx)).2
      split at hkind
      · rw [Bool.and_eq_true, decide_eq_true_eq] at hkind
        exact .of_parent hkind.1
      · rw [Bool.and_eq_true, hc.isProperDescendant_iff] at hkind
        exact ⟨hkind.2.2,hkind.2.1⟩
    · exact hh.under y x p ((congrFun hbits x).symm.trans hx) hp
  · rcases hcases y with ⟨p,-,-,hbits⟩ | ⟨-,hbits⟩
    · exact (hl.oneChild hc).agree (hl.closed hc) (hactive y p x ((hbits x).1 hx))
        (hactive y p x' ((hbits x').1 hx'))
    · exact hh.agree y x x' ((congrFun hbits x).symm.trans hx) ((congrFun hbits x').symm.trans hx')

theorem microstep_legal (hc : c.WellFormed) (hparted : c.TargetsParted) {s : ChartMemory c}
    (hl : Legal s.bits) (hh : s.history.Sound hc) (trigger : ChartTrigger)
    (enabled : c.State → c.Transition → Bool) :
    microstep s trigger enabled = .unhandled ∨
      ∃ s', microstep s trigger enabled = .moved s' ∧ Legal s'.bits ∧ s'.history.Sound hc := by
  obtain ⟨hpicked,hpair⟩ := selectTransitions_spec hc hl enabled trigger
  let selected := selectTransitions s.bits enabled trigger
  by_cases hnil : selected = []
  · exact Or.inl (if_pos hnil)
  have hsave := saveAffectedHistory_sound hc hl (exitUnion selected) hh
  obtain ⟨w,hw,hlegal⟩ := buildTarget_legal hc hparted hl hpicked hpair hsave
  let history := saveAffectedHistory s.bits (exitUnion selected) s.history
  refine Or.inr ⟨{ bits := w.bits, history := history },?_,hlegal,hsave⟩
  refine (if_neg hnil).trans ?_
  rw [hw]

theorem reach_legal (hc : c.WellFormed) (hparted : c.TargetsParted) {w : c.EntryWork}
    (hw : Legal w.bits) {s : ChartMemory c}
    (hs : Transition.Reach chartStep (fun s => s = { bits := w.bits }) Transition.anyAction s) :
    Legal s.bits ∧ s.history.Sound hc := by
  refine hs.invariant (I := fun s => Legal s.bits ∧ s.history.Sound hc) ?_ ?_
  · rintro s rfl
    exact ⟨hw,HistoryBuffer.sound_empty hc⟩
  · intro s a t hs _ hstep
    rcases microstep_legal hc hparted hs.1 hs.2 a.trigger a.enabled with hnone | ⟨s',hmoved,hlegal⟩
    · simp [chartStep, hnone] at hstep
    · simp only [chartStep, hmoved, Option.some.injEq] at hstep
      exact hstep ▸ hlegal

theorem targetsParted_of_single (h : ∀ t, (c.transitionTargets t).length ≤ 1) :
    c.TargetsParted := by
  intro t
  match hl : c.transitionTargets t, h t with
  | [], _ => exact .nil
  | [x], _ => exact List.pairwise_singleton _ _
  | x :: y :: l, hlen => simp at hlen

/-- The configuration of an instance is legal when it is initialised and after every microstep, and
no microstep finds its own result invalid: for the charts of the single-target build and for those
whose target sets are parted, when every single target names a state. -/
theorem configurations_stay_legal {d : ChartDefinition} {c : ChartImpl}
    (hbuild : buildStatechart d = .ok c) (hnamed : d.TargetsNamed)
    (h : d.SingleTarget ∨ c.TargetsParted) :
    ∃ w, buildInitialConfiguration c = some w ∧ ∀ s : ChartMemory c,
      Transition.Reach chartStep (fun s => s = { bits := w.bits }) Transition.anyAction s →
        Legal s.bits ∧ ∀ trigger enabled, microstep s trigger enabled ≠ .invalidConfiguration := by
  obtain ⟨hc,hsingle⟩ := wellFormed_of_build hbuild hnamed
  have hparted : c.TargetsParted := by
    rcases h with h | h
    · exact targetsParted_of_single (hsingle h)
    · exact h
  obtain ⟨w,hw,hlegal⟩ := initial_legal hc hparted
  refine ⟨w,hw,fun s hs => ?_⟩
  obtain ⟨hl,hh⟩ := reach_legal hc hparted hlegal hs
  refine ⟨hl,fun trigger enabled hinvalid => ?_⟩
  rcases microstep_legal hc hparted hl hh trigger enabled with hnone | ⟨s',hmoved,-⟩
  · rw [hnone] at hinvalid
    cases hinvalid
  · rw [hmoved] at hinvalid
    cases hinvalid

def player : ChartDefinition where
  states := [⟨1, 0, .compound, 1⟩, ⟨2, 1, .initial, 2⟩, ⟨3, 1, .atomic, 3⟩, ⟨4, 1, .parallel, 4⟩,
    ⟨5, 4, .compound, 5⟩, ⟨6, 5, .initial, 6⟩, ⟨7, 5, .historyShallow, 7⟩, ⟨8, 5, .atomic, 8⟩,
    ⟨9, 4, .compound, 9⟩, ⟨10, 9, .initial, 10⟩, ⟨11, 9, .atomic, 11⟩]
  events := [1, 2]
  transitions := [⟨1, 2, .eventless, 0, 0, 0, 3, .external, 1, 1⟩,
    ⟨2, 6, .eventless, 0, 0, 0, 8, .external, 1, 2⟩,
    ⟨3, 7, .eventless, 0, 0, 0, 8, .external, 1, 3⟩,
    ⟨4, 10, .eventless, 0, 0, 0, 11, .external, 1, 4⟩,
    ⟨5, 3, .event, 1, 0, 0, 0, .external, 1, 5⟩,
    ⟨6, 4, .event, 2, 0, 0, 3, .external, 1, 6⟩]
  transitionTargets := [⟨5, 7, 1⟩, ⟨5, 11, 2⟩]

theorem player_built : ∃ c, buildStatechart player = .ok c ∧ player.TargetsNamed ∧
    c.TargetsParted := by
  have hok : ((buildStatechart player).toOption.any fun c =>
      decide (player.TargetsNamed ∧ c.TargetsParted)) = true := by
    decide +kernel
  cases hb : buildStatechart player with
  | error e => simp [hb, Except.toOption] at hok
  | ok c =>
    rw [hb] at hok
    exact ⟨c,rfl,of_decide_eq_true hok⟩

theorem player_stays_legal :
    ∃ c, buildStatechart player = .ok c ∧ player.TargetsNamed ∧ c.TargetsParted ∧
      ∃ w, buildInitialConfiguration c = some w ∧ ∀ s : ChartMemory c,
        Transition.Reach chartStep (fun s => s = { bits := w.bits }) Transition.anyAction s →
          Legal s.bits ∧
            ∀ trigger enabled, microstep s trigger enabled ≠ .invalidConfiguration := by
  obtain ⟨c,hbuild,hnamed,hparted⟩ := player_built
  exact ⟨c,hbuild,hnamed,hparted,configurations_stay_legal hbuild hnamed (.inr hparted)⟩

/-- The event of this single-target chart leads to a state that is not there. -/
def astray : ChartDefinition where
  states := [⟨1, 0, .compound, 1⟩, ⟨2, 1, .initial, 2⟩, ⟨3, 1, .atomic, 3⟩]
  events := [1]
  transitions := [⟨1, 2, .eventless, 0, 0, 0, 3, .external, 1, 1⟩,
    ⟨2, 3, .event, 1, 0, 0, 99, .external, 1, 2⟩]

def MicrostepResult.invalid : MicrostepResult c → Bool
  | .invalidConfiguration => true
  | _ => false

theorem MicrostepResult.eq_of_invalid {r : MicrostepResult c} (h : r.invalid = true) :
    r = .invalidConfiguration := by
  cases r <;> first | rfl | cases h

/-- Without the check of its target the chart is built, and the event exits every state and enters
none. -/
theorem astray_reports_invalid :
    astray.SingleTarget ∧ ∃ c, buildStatechart astray = .ok c ∧
      ∃ w, buildInitialConfiguration c = some w ∧
        microstep { bits := w.bits } (.event 1) (fun _ _ => true) = .invalidConfiguration := by
  have hok : ((buildStatechart astray).toOption.any fun c =>
      (buildInitialConfiguration c).any fun w =>
        (microstep { bits := w.bits } (.event 1) fun _ _ => true).invalid) = true := by
    decide +kernel
  cases hb : buildStatechart astray with
  | error e => simp [hb, Except.toOption] at hok
  | ok c =>
    simp only [hb, Except.toOption, Option.any_some] at hok
    obtain ⟨w,hw,hinvalid⟩ := (Option.any_eq_true _ _).1 hok
    exact ⟨rfl,c,rfl,w,hw,MicrostepResult.eq_of_invalid hinvalid⟩

/-- What the histories of an instance record could be active again: real states below the parent of
the history, no two of them separated by a compound state. -/
theorem history_stays_sound {d : ChartDefinition} {c : ChartImpl}
    (hbuild : buildStatechart d = .ok c) (hnamed : d.TargetsNamed)
    (h : d.SingleTarget ∨ c.TargetsParted) :
    ∃ (hc : c.WellFormed) (w : c.EntryWork), buildInitialConfiguration c = some w ∧
      ∀ s : ChartMemory c,
        Transition.Reach chartStep (fun s => s = { bits := w.bits }) Transition.anyAction s →
          s.history.Sound hc := by
  obtain ⟨hc,hsingle⟩ := wellFormed_of_build hbuild hnamed
  have hparted : c.TargetsParted := h.elim (fun h => targetsParted_of_single (hsingle h)) id
  obtain ⟨w,hw,hlegal⟩ := initial_legal hc hparted
  exact ⟨hc,w,hw,fun s hs => (reach_legal hc hparted hlegal hs).2⟩

theorem player_history_stays_sound :
    ∃ c, buildStatechart player = .ok c ∧ player.TargetsNamed ∧ c.TargetsParted ∧
      ∃ (hc : c.WellFormed) (w : c.EntryWork), buildInitialConfiguration c = some w ∧
        ∀ s : ChartMemory c,
          Transition.Reach chartStep (fun s => s = { bits := w.bits }) Transition.anyAction s →
            s.history.Sound hc := by
  obtain ⟨c,hbuild,hnamed,hparted⟩ := player_built
  exact ⟨c,hbuild,hnamed,hparted,history_stays_sound hbuild hnamed (.inr hparted)⟩

end Salts.CFlow.ChartImpl
