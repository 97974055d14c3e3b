import Mathlib.Data.List.Pairwise
import Salts.CFlowChartTree

/-!
What entering does: activating the way to a target adds the states above it, a restored history the
states above what it remembers, and the descent through the stack completes every state entered.
-/

namespace Salts.CFlow.ChartImpl

open AndOrTree
open EntryWork

variable {c : ChartImpl}

def on (bits : c.Bits) : Set c.State := {s | bits s = true}

def WellFormed.ups (hc : c.WellFormed) (targets : List c.State) : Set c.State :=
  {a | ∃ x ∈ targets, hc.tree.Below x a}

namespace EntryWork

structure Stacked (w : c.EntryWork) : Prop where
  nodup : w.stack.Nodup
  active : ∀ s ∈ w.stack, w.bits s = true
  real : ∀ s, w.bits s = true → c.real s = true

structure Entered (w w' : c.EntryWork) (s : Set c.State) : Prop where
  bits : ∀ x, w'.bits x = true ↔ w.bits x = true ∨ x ∈ s
  stack : ∀ x, x ∈ w'.stack ↔ x ∈ w.stack ∨ (x ∈ s ∧ w.bits x = false)
  stacked : w'.Stacked

def SamePseudo (w w' : c.EntryWork) : Prop :=
  w'.pseudoByState = w.pseudoByState ∧ w'.pseudoOrder = w.pseudoOrder

variable {w w' w'' : c.EntryWork} {s t : Set c.State}

theorem Entered.on_eq (h : Entered w w' s) : on w'.bits = on w.bits ∪ s :=
  Set.ext fun x => h.bits x

theorem Entered.trans (h : Entered w w' s) (h' : Entered w' w'' t) : Entered w w'' (s ∪ t) := by
  refine ⟨fun x => ?_,fun x => ?_,h'.stacked⟩
  · rw [h'.bits, h.bits, Set.mem_union, or_assoc]
  have hb := h.bits x
  rw [h'.stack, h.stack, Set.mem_union]
  rw [← Bool.not_eq_true, ← Bool.not_eq_true]
  tauto

theorem Entered.congr (h : Entered w w' s) (hst : ∀ x, w.bits x = false → (x ∈ s ↔ x ∈ t)) :
    Entered w w' t := by
  refine ⟨fun x => ?_,fun x => ?_,h.stacked⟩
  · rw [h.bits]
    cases hx : w.bits x with
    | false => simp [hst x hx]
    | true => simp
  · rw [h.stack]
    cases hx : w.bits x with
    | false => simp [hst x hx]
    | true => simp

theorem Entered.none (h : w.Stacked) : Entered w w ∅ := ⟨by simp,by simp,h⟩

theorem SamePseudo.trans (h : SamePseudo w w') (h' : SamePseudo w' w'') : SamePseudo w w'' :=
  ⟨h'.1.trans h.1,h'.2.trans h.2⟩

variable {x : c.State}

theorem Entered.mono (h : Entered w w' s) (hx : w.bits x = true) :
    w'.bits x = true := (h.bits x).2 (Or.inl hx)

theorem Stacked.room (h : w.Stacked) (hx : w.bits x = false) : w.stack.length < c.stateCount := by
  have hnot : x ∉ w.stack := by
    intro hmem
    rw [h.active x hmem] at hx
    cases hx
  have hcard := (List.nodup_cons.2 ⟨hnot,h.nodup⟩).length_le_card
  rw [Fintype.card_fin] at hcard
  exact hcard

theorem activate_entered (h : w.Stacked) (staged : Bool) (hx : c.real x = true) :
    ∃ w', w.activate staged x = some w' ∧ Entered w w' {x} ∧ SamePseudo w w' := by
  have hpseudo : (c.kind x).pseudo = false := by simpa [real] using hx
  cases hbit : w.bits x with
  | true =>
    refine ⟨w,by simp [activate, hpseudo, hbit],?_,rfl,rfl⟩
    refine (Entered.none h).congr fun y hy => ?_
    have hne : y ≠ x := by
      rintro rfl
      rw [hbit] at hy
      cases hy
    simp [hne]
  | false =>
    have hroom := h.room hbit
    let v : c.EntryWork :=
      { bits := Function.update w.bits x true
        entryBits := if staged then Function.update w.entryBits x true else w.entryBits
        stack := x :: w.stack
        pseudoByState := w.pseudoByState
        pseudoOrder := w.pseudoOrder }
    have hactive : w.activate staged x = some v := by
      simp [activate, hpseudo, hbit, Nat.not_le.2 hroom, v]
    have hbits : ∀ y, v.bits y = true ↔ w.bits y = true ∨ y = x := by
      intro y
      by_cases hy : y = x
      · simp [v, hy]
      · simp [v, hy]
    refine ⟨v,hactive,⟨hbits,?_,?_,?_,?_⟩,rfl,rfl⟩
    · intro y
      simp only [v, List.mem_cons]
      constructor
      · rintro (rfl | hy)
        · exact Or.inr ⟨rfl,hbit⟩
        · exact Or.inl hy
      · rintro (hy | ⟨rfl,-⟩)
        · exact Or.inr hy
        · exact Or.inl rfl
    · refine List.nodup_cons.2 ⟨?_,h.nodup⟩
      intro hmem
      rw [h.active x hmem] at hbit
      cases hbit
    · intro y hy
      rw [hbits]
      rcases List.mem_cons.1 hy with rfl | hy
      · exact Or.inr rfl
      · exact Or.inl (h.active y hy)
    · intro y hy
      rcases (hbits y).1 hy with hy | rfl
      · exact h.real y hy
      · exact hx

theorem activateAll_entered (h : w.Stacked) (staged : Bool) {xs : List c.State}
    (hxs : ∀ x ∈ xs, c.real x = true) :
    ∃ w', activateAll staged xs w = some w' ∧ Entered w w' {x | x ∈ xs} ∧ SamePseudo w w' := by
  induction xs generalizing w with
  | nil => exact ⟨w,rfl,by simpa using Entered.none h,rfl,rfl⟩
  | cons x xs ih =>
    obtain ⟨v,hv,hent,hsame⟩ := activate_entered h staged (hxs x (by simp))
    obtain ⟨w',hw',hent',hsame'⟩ := ih hent.stacked fun y hy => hxs y (by simp [hy])
    refine ⟨w',by simp [activateAll, hv, hw'],?_,hsame.trans hsame'⟩
    refine (hent.trans hent').congr fun y _ => ?_
    simp

end EntryWork

section Paths

variable (hc : c.WellFormed)

include hc

variable {x b : c.State} {l xs : List c.State}

theorem WellFormed.real_of_child {p : c.State} (hp : c.parents x = some p) : c.real p = true := by
  have hkind := hc.parentKind hp
  rw [real]
  cases hk : c.kind p <;> rw [hk] at hkind <;> first | rfl | cases hkind

theorem WellFormed.real_of_below {a : c.State} (h : hc.tree.Below x a) (hx : c.real x = true) :
    c.real a = true := by
  induction h with
  | refl => exact hx
  | tail _ hp _ => exact hc.real_of_child hp

/-- The states found on a walk up from `x`, which stopped where `stop` holds of all above. -/
structure WellFormed.Walked (x : c.State) (found : List c.State) (stop : c.State → Prop) : Prop where
  below : ∀ a ∈ found, hc.tree.Below x a
  all : ∀ a, hc.tree.Below x a → stop a ∨ a ∈ found

namespace WellFormed.Walked

variable {p : c.State} {found : List c.State} {stop : c.State → Prop}

theorem root (hp : c.parents x = none) : hc.Walked x [x] stop := by
  refine ⟨fun a ha => ?_,fun a ha => Or.inr ?_⟩
  · rw [List.mem_singleton.1 ha]
    exact .refl
  · by_contra hne
    obtain ⟨q,hq,-⟩ := ha.parent_below fun hxa => hne (by simp [hxa])
    cases hp.symm.trans hq

theorem child (hp : c.parents x = some p) (h : hc.Walked p found stop) :
    hc.Walked x (found ++ [x]) stop := by
  refine ⟨fun a ha => ?_,fun a ha => ?_⟩
  · rcases List.mem_append.1 ha with ha | ha
    · exact (AndOrTree.Below.of_parent hp).trans (h.below a ha)
    · rw [List.mem_singleton.1 ha]
      exact .refl
  · by_cases hne : x = a
    · exact Or.inr (by simp [hne])
    · obtain ⟨q,hq,hqa⟩ := ha.parent_below hne
      obtain rfl : q = p := Option.some.inj (Eq.trans (Eq.symm hq) hp)
      exact (h.all a hqa).imp id (List.mem_append_left _)

omit hc in
theorem entered {hc : c.WellFormed} (hw : hc.Walked x found stop) {w : c.EntryWork} (h : w.Stacked)
    (hx : c.real x = true) (hstop : ∀ a, stop a → w.bits a = true) (staged : Bool) :
    ∃ w', activateAll staged found w = some w' ∧ w.Entered w' (hc.tree.up x) ∧ w.SamePseudo w' := by
  obtain ⟨w',hw',hent,hsame⟩ :=
    activateAll_entered h staged fun a ha => hc.real_of_below (hw.below a ha) hx
  refine ⟨w',hw',hent.congr fun a ha => ⟨hw.below a,fun hup => ?_⟩,hsame⟩
  refine (hw.all a hup).resolve_left fun hs => ?_
  rw [hstop a hs] at ha
  cases ha

end WellFormed.Walked

theorem pathTo_spec {w : c.EntryWork} {fuel : Nat}
    (hfuel : c.depths x < fuel) (hclosed : hc.tree.Closed (on w.bits)) (hx : c.real x = true) :
    ∃ found, w.pathTo fuel l (some x) = some (found ++ l) ∧
      hc.Walked x found (w.bits · = true) := by
  induction fuel generalizing l x with
  | zero => omega
  | succ fuel ih =>
    have hpseudo : (c.kind x).pseudo = false := by simpa [real] using hx
    cases hbit : w.bits x with
    | true =>
      exact ⟨[],by simp [pathTo, hbit],nofun,fun a ha => Or.inl (hclosed.mem_of_below hbit ha)⟩
    | false =>
      cases hp : c.parents x with
      | none => exact ⟨[x],by simp [pathTo, hbit, hpseudo, hp],.root hc hp⟩
      | some p =>
        have hd := hc.depth hp
        obtain ⟨found,hfound,hwalked⟩ := ih (l := x :: l) (by omega) (hc.real_of_child hp)
        exact ⟨found ++ [x],by simp [pathTo, hbit, hpseudo, hp, hfound],.child hc hp hwalked⟩

theorem pathBelow_spec {fuel : Nat}
    (hfuel : c.depths x < fuel) (hx : c.real x = true) (hxb : hc.tree.Below x b) :
    ∃ found, pathBelow b fuel l (some x) = some (found ++ l) ∧ (x ≠ b → found ≠ []) ∧
      hc.Walked x found (hc.tree.Below b) := by
  induction fuel generalizing l x with
  | zero => omega
  | succ fuel ih =>
    have hpseudo : (c.kind x).pseudo = false := by simpa [real] using hx
    by_cases hxe : x = b
    · subst hxe
      exact ⟨[],by simp [pathBelow],fun h => absurd rfl h,nofun,fun a ha => Or.inl ha⟩
    · obtain ⟨p,hp,hpb⟩ := hxb.parent_below hxe
      have hparent : c.parents x = some p := hp
      have hd := hc.depth hparent
      obtain ⟨found,hfound,-,hwalked⟩ := ih (l := x :: l) (by omega) (hc.real_of_child hparent) hpb
      exact ⟨found ++ [x],by simp [pathBelow, hxe, hpseudo, hparent, hfound],by simp,
        .child hc hp hwalked⟩

theorem activatePathTo_entered {w : c.EntryWork} (h : w.Stacked)
    (hclosed : hc.tree.Closed (on w.bits)) (hx : c.real x = true) :
    ∃ w', w.activatePathTo (some x) = some w' ∧ w.Entered w' (hc.tree.up x) ∧ w.SamePseudo w' := by
  obtain ⟨found,hfound,hwalked⟩ := pathTo_spec hc (l := []) (hc.depths_lt x) hclosed hx
  simpa [activatePathTo, hfound] using hwalked.entered h hx (fun _ ha => ha) true

theorem activateTargetPath_entered {w : c.EntryWork} (h : w.Stacked)
    (hclosed : hc.tree.Closed (on w.bits)) (hx : c.real x = true)
    (hb : w.bits b = true) (hxb : hc.tree.Below x b) (hne : x ≠ b) :
    ∃ w', w.activateTargetPath b x = some w' ∧ w.Entered w' (hc.tree.up x) ∧ w.SamePseudo w' := by
  obtain ⟨found,hfound,hnil,hwalked⟩ := pathBelow_spec hc (l := []) (hc.depths_lt x) hx hxb
  simpa [activateTargetPath, hfound, hnil hne] using
    hwalked.entered h hx (fun a ha => hclosed.mem_of_below hb ha) false

omit hc in
theorem WellFormed.ups_cons (hc : c.WellFormed) (x : c.State) (xs : List c.State) :
    hc.ups (x :: xs) = hc.tree.up x ∪ hc.ups xs := by
  ext a
  simp [WellFormed.ups, AndOrTree.up]

theorem WellFormed.entered_closed {w w' : c.EntryWork} {s : Set c.State} (h : w.Entered w' s)
    (hw : hc.tree.Closed (on w.bits)) (hs : hc.tree.Closed s) : hc.tree.Closed (on w'.bits) := by
  rw [h.on_eq]
  rintro y (hy | hy) p hp
  · exact Or.inl (hw y hy p hp)
  · exact Or.inr (hs y hy p hp)

theorem WellFormed.closed_up (x : c.State) : hc.tree.Closed (hc.tree.up x) :=
  fun _ hy _ hp => Below.trans hy (.of_parent hp)

theorem WellFormed.closed_ups (xs : List c.State) : hc.tree.Closed (hc.ups xs) := by
  rintro y ⟨x,hx,hxy⟩ p hp
  exact ⟨x,hx,hxy.trans (.of_parent hp)⟩

theorem activateTargets_entered {w : c.EntryWork} (h : w.Stacked)
    (hclosed : hc.tree.Closed (on w.bits)) (hxs : ∀ x ∈ xs, c.real x = true) :
    ∃ w', activateTargets xs w = some w' ∧ w.Entered w' (hc.ups xs) ∧ w.SamePseudo w' := by
  induction xs generalizing w with
  | nil =>
    refine ⟨w,rfl,?_,rfl,rfl⟩
    exact (EntryWork.Entered.none h).congr fun x _ => by simp [WellFormed.ups]
  | cons x xs ih =>
    obtain ⟨v,hv,hent,hsame⟩ := activatePathTo_entered hc h hclosed (hxs x (by simp))
    obtain ⟨w',hw',hent',hsame'⟩ := ih hent.stacked
      (hc.entered_closed hent hclosed (hc.closed_up x)) fun y hy => hxs y (by simp [hy])
    refine ⟨w',by simp [activateTargets, hv, hw'],?_,hsame.trans hsame'⟩
    rw [hc.ups_cons]
    exact hent.trans hent'

theorem activateTargetPaths_entered {w : c.EntryWork} (h : w.Stacked)
    (hclosed : hc.tree.Closed (on w.bits)) (hb : w.bits b = true)
    (hxs : ∀ x ∈ xs, c.real x = true ∧ hc.tree.Below x b ∧ x ≠ b) :
    ∃ w', activateTargetPaths b xs w = some w' ∧ w.Entered w' (hc.ups xs) ∧ w.SamePseudo w' := by
  induction xs generalizing w with
  | nil =>
    refine ⟨w,rfl,?_,rfl,rfl⟩
    exact (EntryWork.Entered.none h).congr fun x _ => by simp [WellFormed.ups]
  | cons x xs ih =>
    obtain ⟨hx,hxb,hne⟩ := hxs x (by simp)
    obtain ⟨v,hv,hent,hsame⟩ := activateTargetPath_entered hc h hclosed hx hb hxb hne
    obtain ⟨w',hw',hent',hsame'⟩ := ih hent.stacked
      (hc.entered_closed hent hclosed (hc.closed_up x)) (hent.mono hb)
      fun y hy => hxs y (by simp [hy])
    refine ⟨w',by simp [activateTargetPaths, hv, hw'],?_,hsame.trans hsame'⟩
    rw [hc.ups_cons]
    exact hent.trans hent'

end Paths

end Salts.CFlow.ChartImpl

/-! ### The states a target stands for -/

namespace Salts.CFlow

variable {k : StateKind}

theorem StateKind.pseudo_of_history (h : k.history = true) : k.pseudo = true := by
  cases k <;> simp_all [history, pseudo]

theorem StateKind.pseudo_of_not_history (h : k.history = false)
    (hi : k ≠ .initial) : k.pseudo = false := by
  cases k <;> simp_all [history, pseudo]

theorem StateKind.not_history_of_canComplete (h : k.canComplete = true) : k.history = false := by
  cases k <;> simp_all [history, canComplete]

namespace ChartImpl

open AndOrTree

variable {c : ChartImpl}

def defaultTargets (s : c.State) : List c.State :=
  (c.defaultTransitionIndices s).elim [] c.transitionTargets

def goals (h : c.HistoryBuffer) (y : c.State) : List c.State :=
  if (c.kind y).history then
    if h.counts y = 0 then defaultTargets y else c.documentOrderIndices.filter (h.bits y)
  else [y]

structure HistoryBuffer.Sound (hc : c.WellFormed) (h : c.HistoryBuffer) : Prop where
  kept : ∀ y, h.counts y ≠ 0 → ∃ x, h.bits y x = true
  real : ∀ y x, h.bits y x = true → c.real x = true
  under : ∀ y x p, h.bits y x = true → c.parents y = some p → hc.tree.Under x p
  agree : ∀ y x x', h.bits y x = true → h.bits y x' = true → hc.tree.Agree x x'

theorem HistoryBuffer.sound_empty (hc : c.WellFormed) : HistoryBuffer.Sound hc {} where
  kept := fun _ h => absurd rfl h
  real := fun _ _ h => by cases h
  under := fun _ _ _ h => by cases h
  agree := fun _ _ _ h => by cases h

def orthogonal (x y : c.State) : Prop :=
  ∃ p a b, c.kind p = .parallel ∧ c.parents a = some p ∧ c.parents b = some p ∧ a ≠ b ∧
    c.real a = true ∧ c.real b = true ∧ c.isDescendant x a = true ∧ c.isDescendant y b = true

def Parted (x y : c.State) : Prop :=
  orthogonal x y ∨ c.isProperDescendant x y = true ∨ c.isProperDescendant y x = true

def TargetsParted (c : ChartImpl) : Prop := ∀ t, (c.transitionTargets t).Pairwise c.Parted

instance (x y : c.State) : Decidable (orthogonal x y) := inferInstanceAs (Decidable (∃ _ _ _, _))

instance (x y : c.State) : Decidable (c.Parted x y) := inferInstanceAs (Decidable (_ ∨ _ ∨ _))

instance : Decidable c.TargetsParted := inferInstanceAs (Decidable (∀ _, _))

section Goals

variable (hc : c.WellFormed) {h : c.HistoryBuffer}

include hc

variable {y x a z : c.State}

theorem history_default (hy : (c.kind y).history = true) :
    ∃ p t, c.parents y = some p ∧ c.defaultTransitionIndices y = some t ∧
      c.transitionTargets t ≠ [] ∧
      ∀ x ∈ c.transitionTargets t, c.real x = true ∧ hc.tree.Under x p := by
  have hkind : c.kind y ≠ .initial := by
    intro hk
    rw [hk] at hy
    cases hy
  obtain ⟨p,t,hp,ht,hne,hall⟩ := hc.default y (StateKind.pseudo_of_history hy)
  refine ⟨p,t,hp,ht,hne,fun x hx => ?_⟩
  have htarget := hall x hx
  simp only [ChartTables.defaultTarget, hkind, decide_false, Bool.false_and, Bool.or_false,
    Bool.and_eq_true, hc.isProperDescendant_iff] at htarget
  exact ⟨htarget.1,htarget.2.2,htarget.2.1⟩

theorem history_goals (hh : h.Sound hc) (hy : (c.kind y).history = true) :
    ∃ p, c.parents y = some p ∧ goals h y ≠ [] ∧
      ∀ x ∈ goals h y, c.real x = true ∧ hc.tree.Under x p := by
  obtain ⟨p,t,hp,ht,hne,hall⟩ := history_default hc hy
  refine ⟨p,hp,?_⟩
  by_cases hcount : h.counts y = 0
  · simp only [goals, hy, hcount, defaultTargets, ht]
    exact ⟨hne,hall⟩
  · simp only [goals, hy, if_true, hcount, if_false]
    constructor
    · obtain ⟨x,hx⟩ := hh.kept y hcount
      intro hnil
      have hmem : x ∈ c.documentOrderIndices.filter (h.bits y) :=
        List.mem_filter.2 ⟨c.mem_documentOrderIndices x,hx⟩
      rw [hnil] at hmem
      cases hmem
    · intro x hx
      have hbit := (List.mem_filter.1 hx).2
      exact ⟨hh.real y x hbit,hh.under y x p hbit hp⟩

omit hc in
theorem goals_of_not_history (hy : (c.kind y).history = false) : goals h y = [y] := by
  simp [goals, hy]

omit hc in
theorem real_of_target (hy : (c.kind y).history = false) (hi : c.kind y ≠ .initial) :
    c.real y = true := by
  rw [real, StateKind.pseudo_of_not_history hy hi]
  rfl

theorem goals_under (hh : h.Sound hc) (hx : x ∈ goals h y)
    (hya : hc.tree.Under y a) : hc.tree.Under x a := by
  cases hy : (c.kind y).history with
  | false =>
    rw [goals_of_not_history hy, List.mem_singleton] at hx
    rwa [hx]
  | true =>
    obtain ⟨p,hp,-,hall⟩ := history_goals hc hh hy
    exact (hall x hx).2.trans_below (hya.below_parent hp)

omit hc in
theorem history_not_real (hy : (c.kind y).history = true) : c.real y = false := by
  rw [real, StateKind.pseudo_of_history hy]
  rfl

theorem goals_below (hh : h.Sound hc) (hx : x ∈ goals h y)
    (hya : hc.tree.Below y a) (ha : c.real a = true) : hc.tree.Below x a := by
  by_cases hne : y = a
  · subst hne
    cases hy : (c.kind y).history with
    | false =>
      rw [goals_of_not_history hy, List.mem_singleton] at hx
      rw [hx]
      exact .refl
    | true =>
      rw [history_not_real hy] at ha
      cases ha
  · exact (goals_under hc hh hx ⟨hya,hne⟩).1

theorem history_is_leaf (hy : (c.kind y).history = true) (hxy : hc.tree.Below x y) : x = y := by
  by_contra hne
  obtain ⟨b,hb,-⟩ := hxy.child hne
  rw [StateKind.not_history_of_canComplete (hc.parentKind hb)] at hy
  cases hy

def Before (h : c.HistoryBuffer) (y z : c.State) : Prop :=
  (c.kind z).history = true → ∀ p, c.parents z = some p → ∀ x ∈ goals h y, ¬hc.tree.Under x p

def GoalsAgree (h : c.HistoryBuffer) (y z : c.State) : Prop :=
  ∀ x ∈ goals h y, ∀ x' ∈ goals h z, hc.tree.Agree x x'

theorem GoalsAgree.symm (hyz : GoalsAgree hc h y z) : GoalsAgree hc h z y :=
  fun x hx x' hx' => (hyz x' hx' x hx).symm

theorem goalsAgree_of_under (hh : h.Sound hc) (hyz : hc.tree.Under y z) : GoalsAgree hc h y z := by
  have hz : (c.kind z).history = false := by
    cases hz : (c.kind z).history with
    | false => rfl
    | true => exact absurd (history_is_leaf hc hz hyz.1) hyz.2
  intro x hx x' hx'
  rw [goals_of_not_history hz, List.mem_singleton] at hx'
  rw [hx']
  exact agree_of_below (goals_under hc hh hx hyz).1

theorem Parted.goalsAgree (hh : h.Sound hc) (hyz : c.Parted y z) : GoalsAgree hc h y z := by
  rcases hyz with ⟨p,a,b,hp,ha,hb,hab,hra,hrb,hya,hzb⟩ | hyz | hzy
  · intro x hx x' hx'
    rw [hc.isDescendant_iff] at hya hzb
    have hsingle : ¬hc.tree.single p := by
      intro hs
      have hk : c.kind p = .compound := hs
      rw [hp] at hk
      cases hk
    exact Orthogonal.agree ⟨p,a,b,hsingle,ha,hb,hab,goals_below hc hh hx hya hra,
      goals_below hc hh hx' hzb hrb⟩
  · have hyz := hc.isProperDescendant_iff.1 hyz
    exact goalsAgree_of_under hc hh ⟨hyz.2,hyz.1⟩
  · have hzy := hc.isProperDescendant_iff.1 hzy
    exact (goalsAgree_of_under hc hh ⟨hzy.2,hzy.1⟩).symm hc

theorem Parted.before (hh : h.Sound hc) (hyz : c.Parted y z) : Before hc h y z := by
  intro hz p hp x hx hxp
  rcases hyz with ⟨q,a,b,hq,ha,hb,hab,hra,hrb,hya,hzb⟩ | hyz | hzy
  · -- the history lies in one region and with it its parent, the goal in another
    rw [hc.isDescendant_iff] at hya hzb
    have hne : z ≠ b := by
      rintro rfl
      rw [history_not_real hz] at hrb
      cases hrb
    have hpb : hc.tree.Below p b := Under.below_parent ⟨hzb,hne⟩ hp
    have hxa := goals_below hc hh hx hya hra
    exact hab (child_unique ha hb hxa (hxp.1.trans hpb))
  · have hyz := hc.isProperDescendant_iff.1 hyz
    exact hyz.1 (history_is_leaf hc hz hyz.2)
  · have hzy := hc.isProperDescendant_iff.1 hzy
    have hpy : hc.tree.Below p y := Under.below_parent ⟨hzy.2,hzy.1⟩ hp
    have hy : (c.kind y).history = false := by
      cases hy : (c.kind y).history with
      | false => rfl
      | true => exact absurd (history_is_leaf hc hy hzy.2) hzy.1
    rw [goals_of_not_history hy, List.mem_singleton] at hx
    rw [hx] at hxp
    exact hxp.2 (hxp.1.antisymm hpy)

theorem goalsAgree_self (hh : h.Sound hc) (hparted : c.TargetsParted) (y : c.State) :
    GoalsAgree hc h y y := by
  intro x hx x' hx'
  cases hy : (c.kind y).history with
  | false =>
    rw [goals_of_not_history hy, List.mem_singleton] at hx hx'
    rw [hx, hx']
    exact agree_of_below .refl
  | true =>
    by_cases hcount : h.counts y = 0
    · obtain ⟨p,t,hp,ht,-,hall⟩ := history_default hc hy
      simp only [goals, hy, hcount, defaultTargets, ht] at hx hx'
      -- the targets of a default transition are real, each the only goal of itself
      have hgoal : ∀ z ∈ c.transitionTargets t, goals h z = [z] := by
        intro z hz
        refine goals_of_not_history ?_
        cases hk : (c.kind z).history with
        | false => rfl
        | true =>
          have hreal := (hall z hz).1
          rw [history_not_real hk] at hreal
          cases hreal
      have hagree : (c.transitionTargets t).Pairwise hc.tree.Agree := by
        refine (hparted t).imp_of_mem fun {a b} ha hb hab => ?_
        refine hab.goalsAgree hc hh a ?_ b ?_
        · rw [hgoal a ha]
          exact List.mem_singleton.2 rfl
        · rw [hgoal b hb]
          exact List.mem_singleton.2 rfl
      have : Std.Symm hc.tree.Agree := ⟨fun _ _ => Agree.symm⟩
      exact List.Pairwise.forall_of_forall (fun a _ => agree_of_below .refl) hagree hx hx'
    · simp only [goals, hy, if_true, hcount, if_false, List.mem_filter] at hx hx'
      exact hh.agree y x x' hx.2 hx'.2

end Goals

namespace EntryWork

/-- The default transitions that ran are at most the states noted for them, and each of these
states has something active inside. -/
structure Noted (hc : c.WellFormed) (w : c.EntryWork) : Prop where
  order : w.pseudoOrder.length ≤
    (Finset.univ.filter fun s => (w.pseudoByState s).isSome = true).card
  inside : ∀ s, (w.pseudoByState s).isSome = true → ∃ x, w.bits x = true ∧ hc.tree.Under x s

section Noted

variable {hc : c.WellFormed} {w w' w'' : c.EntryWork} {s : Set c.State}

theorem Noted.free (h : w.Noted hc) {p : c.State}
    (hclear : ∀ x, w.bits x = true → ¬hc.tree.Under x p) : w.pseudoByState p = none := by
  cases hp : w.pseudoByState p with
  | none => rfl
  | some t =>
    obtain ⟨x,hx,hxp⟩ := h.inside p (by simp [hp])
    exact absurd hxp (hclear x hx)

theorem Noted.room (h : w.Noted hc) {p : c.State} (hp : w.pseudoByState p = none) :
    w.pseudoOrder.length < c.stateCount := by
  have hlt : (Finset.univ.filter fun s => (w.pseudoByState s).isSome = true).card <
      (Finset.univ : Finset c.State).card := by
    apply Finset.card_lt_card
    apply Finset.filter_ssubset.2
    exact ⟨p,Finset.mem_univ p,by simp [hp]⟩
  rw [Finset.card_univ, Fintype.card_fin] at hlt
  exact lt_of_le_of_lt h.order hlt

theorem Noted.keep (h : w.Noted hc) (hent : Entered w w' s) (hsame : SamePseudo w w') :
    w'.Noted hc := by
  refine ⟨?_,fun p hp => ?_⟩
  · rw [hsame.1, hsame.2]
    exact h.order
  · rw [hsame.1] at hp
    obtain ⟨x,hx,hxp⟩ := h.inside p hp
    exact ⟨x,hent.mono hx,hxp⟩

variable {t : c.Transition}

theorem Noted.note (h : w.Noted hc) (hent : Entered w w' s) {p x : c.State}
    (hp : w.pseudoByState p = none)
    (hby : w'.pseudoByState = Function.update w.pseudoByState p (some t))
    (horder : w'.pseudoOrder.length ≤ w.pseudoOrder.length + 1)
    (hx : w'.bits x = true) (hxp : hc.tree.Under x p) : w'.Noted hc := by
  constructor
  · have hset : (Finset.univ.filter fun s => (w'.pseudoByState s).isSome = true) =
        insert p (Finset.univ.filter fun s => (w.pseudoByState s).isSome = true) := by
      ext y
      by_cases hy : y = p
      · simp [hby, hy]
      · simp [hby, hy]
    have hnot : p ∉ Finset.univ.filter fun s => (w.pseudoByState s).isSome = true := by
      simp [hp]
    rw [hset, Finset.card_insert_of_notMem hnot]
    have hle := h.order
    omega
  · intro y hy
    by_cases hyp : y = p
    · exact ⟨x,hx,hyp ▸ hxp⟩
    · rw [hby, Function.update_of_ne hyp] at hy
      obtain ⟨z,hz,hzy⟩ := h.inside y hy
      exact ⟨z,hent.mono hz,hzy⟩

theorem Entered.of_eq (hent : Entered w' w'' s) (hbits : w'.bits = w.bits)
    (hstack : w'.stack = w.stack) : Entered w w'' s := by
  refine ⟨?_,?_,hent.stacked⟩
  · rw [← hbits]
    exact hent.bits
  · rw [← hbits, ← hstack]
    exact hent.stack

theorem Stacked.of_eq (h : w.Stacked) (hbits : w'.bits = w.bits) (hstack : w'.stack = w.stack) :
    w'.Stacked := by
  refine ⟨?_,?_,?_⟩
  · rw [hstack]
    exact h.nodup
  · rw [hstack, hbits]
    exact h.active
  · rw [hbits]
    exact h.real

theorem collectPseudoTransition_eq {y p : c.State}
    (ht : c.defaultTransitionIndices y = some t) (hp : c.parents y = some p)
    (hroom : w.pseudoOrder.length < c.stateCount) (hfree : w.pseudoByState p = none) :
    w.collectPseudoTransition y = some { w with
      pseudoByState := Function.update w.pseudoByState p (some t)
      pseudoOrder := w.pseudoOrder ++ [t] } := by
  simp [collectPseudoTransition, ht, hp, hfree, Nat.not_le.2 hroom]

end Noted

end EntryWork

/-- What entering does to the noted transitions: with `collect` those of the histories are noted. -/
structure EntryWork.Keeps (hc : c.WellFormed) (collect : Bool) (w w' : c.EntryWork) : Prop where
  noted : collect = true → w'.Noted hc
  same : collect = false → w.SamePseudo w'

variable {collect : Bool}

theorem EntryWork.Keeps.of_same {hc : c.WellFormed} {w w' : c.EntryWork}
    {s : Set c.State} (h : collect = true → w.Noted hc) (hent : w.Entered w' s)
    (hsame : w.SamePseudo w') : w.Keeps hc collect w' :=
  ⟨fun hcollect => (h hcollect).keep hent hsame,fun _ => hsame⟩

theorem EntryWork.Keeps.trans {hc : c.WellFormed} {w w' w'' : c.EntryWork}
    (h : w.Keeps hc collect w') (h' : w'.Keeps hc collect w'') : w.Keeps hc collect w'' :=
  ⟨h'.noted,fun hcollect => (h.same hcollect).trans (h'.same hcollect)⟩

section Targets

variable (hc : c.WellFormed) {h : c.HistoryBuffer} {w : c.EntryWork}

include hc

variable {p y : c.State}

theorem up_union_ups {xs : List c.State} (hne : xs ≠ [])
    (hxs : ∀ x ∈ xs, hc.tree.Under x p) : hc.tree.up p ∪ hc.ups xs = hc.ups xs := by
  refine Set.union_eq_right.2 fun a ha => ?_
  obtain ⟨x,hx⟩ := List.exists_mem_of_ne_nil xs hne
  exact ⟨x,hx,(hxs x hx).1.trans ha⟩

section

variable (hh : h.Sound hc) (collect : Bool) (hw : w.Stacked) (hclosed : hc.tree.Closed (on w.bits))

include hh hw hclosed

theorem restoreHistoryTarget_entered (hnoted : collect = true → w.Noted hc)
    (hy : (c.kind y).history = true) (hp : c.parents y = some p)
    (hclear : ∀ x, w.bits x = true → ¬hc.tree.Under x p) :
    ∃ w', w.restoreHistoryTarget h y collect = some w' ∧ w.Entered w' (hc.ups (goals h y)) ∧
      w.Keeps hc collect w' := by
  obtain ⟨q,hq,hne,hall⟩ := history_goals hc hh hy
  obtain rfl : q = p := Option.some.inj (hq.symm.trans hp)
  have hup := up_union_ups hc hne fun x hx => (hall x hx).2
  obtain ⟨v,hv,hent,hsame⟩ := activatePathTo_entered hc hw hclosed (hc.real_of_child hp)
  have hvclosed := hc.entered_closed hent hclosed (hc.closed_up q)
  have hvnoted := EntryWork.Keeps.of_same hnoted hent hsame
  by_cases hcount : h.counts y = 0
  · obtain ⟨-,t,-,ht,-,-⟩ := history_default hc hy
    have hgoals : goals h y = c.transitionTargets t := by
      simp [goals, hy, hcount, defaultTargets, ht]
    rw [hgoals] at hne hall hup ⊢
    cases collect with
    | false =>
      obtain ⟨w',hw',hent',hsame'⟩ :=
        activateTargets_entered hc hent.stacked hvclosed fun x hx => (hall x hx).1
      refine ⟨w',by simp [EntryWork.restoreHistoryTarget, hp, hv, hcount, ht, hw'],?_,
        hvnoted.trans (.of_same hvnoted.noted hent' hsame')⟩
      rw [← hup]
      exact hent.trans hent'
    | true =>
      have hfree : v.pseudoByState q = none := by
        rw [hsame.1]
        exact (hnoted rfl).free hclear
      have hcollect := EntryWork.collectPseudoTransition_eq ht hp
        ((hvnoted.noted rfl).room hfree) hfree
      obtain ⟨w',hw',hent',hsame'⟩ := activateTargets_entered hc
        (w := { v with
          pseudoByState := Function.update v.pseudoByState q (some t)
          pseudoOrder := v.pseudoOrder ++ [t] })
        (hent.stacked.of_eq rfl rfl) hvclosed fun x hx => (hall x hx).1
      have hent'' : v.Entered w' (hc.ups (c.transitionTargets t)) := hent'.of_eq rfl rfl
      obtain ⟨x,hx⟩ := List.exists_mem_of_ne_nil _ hne
      have hxbit : w'.bits x = true := (hent'.bits x).2 (Or.inr ⟨x,hx,.refl⟩)
      refine ⟨w',by simp [EntryWork.restoreHistoryTarget, hp, hv, hcount, ht, hcollect, hw'],?_,
        fun _ => (hvnoted.noted rfl).note hent'' hfree hsame'.1 ?_ hxbit (hall x hx).2,nofun⟩
      · rw [← hup]
        exact hent.trans hent''
      · rw [hsame'.2, List.length_append, List.length_singleton]
  · have hgoals : goals h y = c.documentOrderIndices.filter (h.bits y) := by
      simp [goals, hy, hcount]
    rw [hgoals] at hne hall hup ⊢
    obtain ⟨w',hw',hent',hsame'⟩ :=
      activateTargets_entered hc hent.stacked hvclosed fun x hx => (hall x hx).1
    refine ⟨w',by simp [EntryWork.restoreHistoryTarget, hp, hv, hcount, hw'],?_,
      hvnoted.trans (.of_same hvnoted.noted hent' hsame')⟩
    rw [← hup]
    exact hent.trans hent'

theorem enterTarget_entered (hnoted : collect = true → w.Noted hc) (hi : c.kind y ≠ .initial)
    (hclear : (c.kind y).history = true → ∀ p, c.parents y = some p →
      ∀ x, w.bits x = true → ¬hc.tree.Under x p) :
    ∃ w', w.enterTarget h collect y = some w' ∧ w.Entered w' (hc.ups (goals h y)) ∧
      w.Keeps hc collect w' := by
  cases hy : (c.kind y).history with
  | true =>
    obtain ⟨p,hp,-⟩ := history_goals hc hh hy
    obtain ⟨w',hw',hrest⟩ := restoreHistoryTarget_entered hc hh collect hw hclosed hnoted hy hp
      (hclear hy p hp)
    exact ⟨w',by simp [EntryWork.enterTarget, hy, hw'],hrest⟩
  | false =>
    obtain ⟨w',hw',hent,hsame⟩ := activatePathTo_entered hc hw hclosed (real_of_target hy hi)
    refine ⟨w',by simp [EntryWork.enterTarget, hy, hw'],?_,.of_same hnoted hent hsame⟩
    rw [goals_of_not_history hy]
    refine hent.congr fun a _ => ?_
    simp [WellFormed.ups, AndOrTree.up]

end

omit hc in
theorem WellFormed.ups_append (hc : c.WellFormed) (xs ys : List c.State) :
    hc.ups (xs ++ ys) = hc.ups xs ∪ hc.ups ys := by
  ext a
  simp only [WellFormed.ups, List.mem_append]
  constructor
  · rintro ⟨x,hx | hx,hxa⟩
    · exact Or.inl ⟨x,hx,hxa⟩
    · exact Or.inr ⟨x,hx,hxa⟩
  · rintro (⟨x,hx,hxa⟩ | ⟨x,hx,hxa⟩)
    · exact ⟨x,Or.inl hx,hxa⟩
    · exact ⟨x,Or.inr hx,hxa⟩

/-- A list of targets is entered when no history comes after something inside its parent. -/
theorem enterTargets_entered (hh : h.Sound hc) (collect : Bool) (hw : w.Stacked)
    (hclosed : hc.tree.Closed (on w.bits)) (hnoted : collect = true → w.Noted hc)
    {ys : List c.State} (hi : ∀ y ∈ ys, c.kind y ≠ .initial)
    (hclear : ∀ y ∈ ys, (c.kind y).history = true → ∀ p, c.parents y = some p →
      ∀ x, w.bits x = true → ¬hc.tree.Under x p)
    (hbefore : ys.Pairwise (Before hc h)) :
    ∃ w', EntryWork.enterTargets h collect ys w = some w' ∧
      w.Entered w' (hc.ups (ys.flatMap (goals h))) ∧ w.Keeps hc collect w' := by
  induction ys generalizing w with
  | nil =>
    refine ⟨w,rfl,?_,hnoted,fun _ => ⟨rfl,rfl⟩⟩
    exact (EntryWork.Entered.none hw).congr fun x _ => by simp [WellFormed.ups]
  | cons y ys ih =>
    obtain ⟨hy,hys⟩ := List.pairwise_cons.1 hbefore
    obtain ⟨v,hv,hent,hkeeps⟩ := enterTarget_entered hc hh collect hw hclosed hnoted
      (hi y (by simp)) (hclear y (by simp))
    have hvclosed := hc.entered_closed hent hclosed (hc.closed_ups _)
    have hvclear : ∀ z ∈ ys, (c.kind z).history = true → ∀ p, c.parents z = some p →
        ∀ x, v.bits x = true → ¬hc.tree.Under x p := by
      intro z hz hzh p hp x hx hxp
      rcases (hent.bits x).1 hx with hx | ⟨g,hg,hgx⟩
      · exact hclear z (by simp [hz]) hzh p hp x hx hxp
      · exact hy z hz hzh p hp g hg (hgx.trans_under hxp)
    obtain ⟨w',hw',hent',hkeeps'⟩ := ih hent.stacked hvclosed hkeeps.noted
      (fun z hz => hi z (by simp [hz])) hvclear hys
    refine ⟨w',by simp [EntryWork.enterTargets, hv, hw'],?_,hkeeps.trans hkeeps'⟩
    rw [List.flatMap_cons, hc.ups_append]
    exact hent.trans hent'

omit hc in
theorem enterSelected_eq (ts : List c.Transition) :
    EntryWork.enterSelected h ts w =
      EntryWork.enterTargets h true (ts.flatMap c.transitionTargets) w := by
  have happend : ∀ (xs ys) (w),
      EntryWork.enterTargets h true (xs ++ ys) w =
        (EntryWork.enterTargets h true xs w).bind (EntryWork.enterTargets h true ys) := by
    intro xs ys
    induction xs with
    | nil => intro w; rfl
    | cons x xs ih =>
      simp [EntryWork.enterTargets, ih, Option.bind_assoc]
  induction ts generalizing w with
  | nil => rfl
  | cons t ts ih =>
    rw [List.flatMap_cons, happend]
    exact congrArg _ (funext fun v => ih)

end Targets

end ChartImpl

end Salts.CFlow
