import Mathlib.Data.Set.Basic

/-!
Trees of nodes some of which are active.  A single node has at most one active child at a time, any
other node may have all of its children active together.  Two nodes agree when no single node
separates them; a set of active nodes that is closed towards the root grows by a node that agrees
with all of it.
-/

structure AndOrTree (ι : Type*) where
  parent : ι → Option ι
  rank : ι → Nat
  rank_lt : ∀ {x p : ι}, parent x = some p → rank p < rank x
  single : ι → Prop

namespace AndOrTree

variable {ι : Type*} (T : AndOrTree ι)

def Below (x a : ι) : Prop := Relation.ReflTransGen (fun y p => T.parent y = some p) x a

def Under (x a : ι) : Prop := T.Below x a ∧ x ≠ a

def up (x : ι) : Set ι := {a | T.Below x a}

def Closed (s : Set ι) : Prop := ∀ x ∈ s, ∀ p, T.parent x = some p → p ∈ s

def OneChild (s : Set ι) : Prop :=
  ∀ c, T.single c → ∀ a ∈ s, ∀ b ∈ s, T.parent a = some c → T.parent b = some c → a = b

def Agree (x y : ι) : Prop :=
  ∀ c, T.single c → ∀ a b, T.parent a = some c → T.parent b = some c →
    T.Below x a → T.Below y b → a = b

def Fits (s : Set ι) (x : ι) : Prop := ∀ y ∈ s, T.Agree x y

def Orthogonal (x y : ι) : Prop :=
  ∃ p a b, ¬T.single p ∧ T.parent a = some p ∧ T.parent b = some p ∧ a ≠ b ∧
    T.Below x a ∧ T.Below y b

variable {T} {x y z a b c d e p : ι} {s t : Set ι}

theorem Below.refl : T.Below x x := Relation.ReflTransGen.refl

theorem Below.of_parent (h : T.parent x = some p) : T.Below x p := Relation.ReflTransGen.single h

theorem Below.trans (h : T.Below x y) (h' : T.Below y z) : T.Below x z :=
  Relation.ReflTransGen.trans h h'

section

variable (h : T.Below x a)

include h

theorem Below.rank_le : T.rank a ≤ T.rank x := by
  induction h with
  | refl => exact le_rfl
  | tail _ hp ih =>
    have hlt := T.rank_lt hp
    omega

theorem Below.parent_below (hne : x ≠ a) : ∃ p, T.parent x = some p ∧ T.Below p a := by
  rcases Relation.ReflTransGen.cases_head h with rfl | ⟨p,hp,hpa⟩
  · exact absurd rfl hne
  · exact ⟨p,hp,hpa⟩

theorem Below.child (hne : x ≠ a) : ∃ b, T.parent b = some a ∧ T.Below x b := by
  rcases Relation.ReflTransGen.cases_tail h with rfl | ⟨b,hb,hp⟩
  · exact absurd rfl hne
  · exact ⟨b,hp,hb⟩

theorem Below.eq_of_rank (hr : T.rank x ≤ T.rank a) : x = a := by
  by_contra hne
  obtain ⟨p,hp,hpa⟩ := h.parent_below hne
  have hlt := T.rank_lt hp
  have hle := hpa.rank_le
  omega

theorem Below.antisymm (h' : T.Below a x) : x = a := h.eq_of_rank h'.rank_le

end

theorem not_below_child (h : T.parent x = some p) : ¬T.Below p x := by
  intro hb
  have hlt := T.rank_lt h
  have hle := hb.rank_le
  omega

theorem Under.of_parent (h : T.parent x = some p) : T.Under x p := by
  refine ⟨.of_parent h,?_⟩
  rintro rfl
  exact not_below_child h .refl

theorem Under.below_parent (h : T.Under x a) (hp : T.parent x = some p) : T.Below p a := by
  obtain ⟨q,hq,hqa⟩ := h.1.parent_below h.2
  rwa [Option.some.inj (hp.symm.trans hq)]

theorem Below.trans_under (h : T.Below x y) (h' : T.Under y a) : T.Under x a := by
  refine ⟨h.trans h'.1,?_⟩
  rintro rfl
  exact h'.2 (h'.1.antisymm h)

theorem Under.trans_below (h : T.Under x y) (h' : T.Below y a) : T.Under x a := by
  refine ⟨h.1.trans h',?_⟩
  rintro rfl
  exact h.2 (h.1.antisymm h')

theorem Below.total (ha : T.Below x a) (hb : T.Below x b) : T.Below a b ∨ T.Below b a := by
  refine Relation.ReflTransGen.total_of_right_unique ?_ ha hb
  intro u v w hv hw
  exact Option.some.inj (hv.symm.trans hw)

theorem child_unique (ha : T.parent a = some c) (hb : T.parent b = some c) (hxa : T.Below x a)
    (hxb : T.Below x b) : a = b := by
  rcases hxa.total hxb with h | h
  · by_contra hne
    obtain ⟨p,hp,hpb⟩ := h.parent_below hne
    obtain rfl : p = c := Option.some.inj (hp.symm.trans ha)
    exact not_below_child hb hpb
  · by_contra hne
    obtain ⟨p,hp,hpa⟩ := h.parent_below (Ne.symm hne)
    obtain rfl : p = c := Option.some.inj (hp.symm.trans hb)
    exact not_below_child ha hpa

theorem below_child_of_above (ha : T.parent a = some c) (hxa : T.Below x a) (hxd : T.Below x d)
    (hdc : T.Below d c) (hne : d ≠ c) : T.Below d a := by
  obtain ⟨b,hb,hdb⟩ := hdc.child hne
  rwa [child_unique ha hb hxa (hxd.trans hdb)]

theorem Agree.symm (h : T.Agree x y) : T.Agree y x :=
  fun c hc a b ha hb hy hx => (h c hc b a hb ha hx hy).symm

theorem agree_of_below (h : T.Below x y) : T.Agree x y :=
  fun _ _ _ _ ha hb hx hy => child_unique ha hb hx (h.trans hy)

theorem Orthogonal.agree (h : T.Orthogonal x y) : T.Agree x y := by
  obtain ⟨p,r,r',hp,hr,hr',hne,hxr,hyr'⟩ := h
  intro c hc a b ha hb hxa hyb
  have hxc := hxa.trans (.of_parent ha)
  have hyc := hyb.trans (.of_parent hb)
  have hpc : p ≠ c := by
    rintro rfl
    exact hp hc
  -- `c` lies above `p`: otherwise it lies below one of the two children and is not above both nodes
  have habove : T.Below p c := by
    rcases (hxr.trans (.of_parent hr)).total hxc with h | h
    · exact h
    · exfalso
      have hcr := below_child_of_above hr hxr hxc h (Ne.symm hpc)
      exact hne (child_unique hr hr' (hyc.trans hcr) hyr')
  have hpa := below_child_of_above ha hxa (hxr.trans (.of_parent hr)) habove hpc
  have hpb := below_child_of_above hb hyb (hyr'.trans (.of_parent hr')) habove hpc
  exact child_unique ha hb hpa hpb

theorem Closed.mem_of_below (hs : T.Closed s) (hx : x ∈ s) (h : T.Below x a) : a ∈ s := by
  induction h with
  | refl => exact hx
  | tail _ hp ih => exact hs _ ih _ hp

theorem OneChild.agree (h : T.OneChild s) (hs : T.Closed s) (hx : x ∈ s) (hy : y ∈ s) :
    T.Agree x y :=
  fun c hc a b ha hb hxa hyb => h c hc a (hs.mem_of_below hx hxa) b (hs.mem_of_below hy hyb) ha hb

theorem OneChild.union_ups (h : T.OneChild s) (hfit : ∀ x ∈ t, T.Fits s x)
    (hagree : ∀ x ∈ t, ∀ y ∈ t, T.Agree x y) : T.OneChild (s ∪ {a | ∃ x ∈ t, T.Below x a}) := by
  rintro c hc a (ha | ⟨x,hx,hxa⟩) b (hb | ⟨y,hy,hyb⟩) hac hbc
  · exact h c hc a ha b hb hac hbc
  · exact (hfit y hy a ha c hc b a hbc hac hyb .refl).symm
  · exact hfit x hx b hb c hc a b hac hbc hxa .refl
  · exact hagree x hx y hy c hc a b hac hbc hxa hyb

theorem OneChild.agree_of_apart (h : T.OneChild s) (hs : T.Closed s) (hd : d ∈ s) (he : e ∈ s)
    (hde : ¬T.Below d e) (hed : ¬T.Below e d) (hxd : T.Below x d) (hye : T.Below y e) :
    T.Agree x y := by
  intro c hc a b ha hb hxa hyb
  have hxc := hxa.trans (.of_parent ha)
  have hyc := hyb.trans (.of_parent hb)
  have hdc : T.Below d c := by
    rcases hxd.total hxc with h | h
    · exact h
    · rcases hye.total (hyc.trans h) with h' | h'
      · exact absurd h' hed
      · exact absurd h' hde
  have hec : T.Below e c := by
    rcases hye.total hyc with h | h
    · exact h
    · rcases hxd.total (hxc.trans h) with h' | h'
      · exact absurd h' hde
      · exact absurd h' hed
  have hdne : d ≠ c := by
    rintro rfl
    exact hed hec
  have hene : e ≠ c := by
    rintro rfl
    exact hde hdc
  have hda := below_child_of_above ha hxa hxd hdc hdne
  have heb := below_child_of_above hb hyb hye hec hene
  exact h.agree hs hd he c hc a b ha hb hda heb

theorem OneChild.fits_of_cleared (h : T.OneChild s) (hs : T.Closed s) (hd : d ∈ s)
    (hclear : ∀ y ∈ s, T.Below y d → y = d) (hxd : T.Below x d) : T.Fits s x := by
  intro y hy c hc a b ha hb hxa hyb
  have hbs := hs.mem_of_below hy hyb
  have hxc := hxa.trans (.of_parent ha)
  have hdc : T.Below d c ∧ d ≠ c := by
    rcases hxd.total hxc with h' | h'
    · refine ⟨h',?_⟩
      rintro rfl
      exact not_below_child hb (hclear b hbs (.of_parent hb) ▸ .refl)
    · exfalso
      obtain rfl : b = d := hclear b hbs ((Below.of_parent hb).trans h')
      exact not_below_child hb h'
  have hda := below_child_of_above ha hxa hxd hdc.1 hdc.2
  exact h c hc a (hs.mem_of_below hd hda) b hbs ha hb

end AndOrTree
