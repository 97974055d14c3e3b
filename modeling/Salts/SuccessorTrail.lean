import Mathlib.Data.List.Nodup
import Mathlib.Data.List.Perm.Subperm
import Mathlib.Data.List.Range

/-!
Trails along a successor function: the nodes met from a start until a node has no successor.  A
trail never meets a node twice, so a walk of at most `n` turns finds a trail or shows that there is
none, and a trail of `n` nodes below `n` meets them all.
-/

namespace SuccessorTrail

variable {α : Type*} {next : α → Option α} {x y : α} {l m : List α}

inductive Trail (next : α → Option α) : α → List α → Prop
  | last {x : α} : next x = none → Trail next x [x]
  | step {x y : α} {l : List α} : next x = some y → Trail next y l → Trail next x (x :: l)

namespace Trail

theorem head (h : Trail next x l) : l.head? = some x := by
  cases h <;> rfl

theorem unique (hl : Trail next x l) (hm : Trail next x m) : l = m := by
  induction hl generalizing m with
  | last hx =>
    cases hm with
    | last => rfl
    | step hy => exact absurd (hx.symm.trans hy) (by simp)
  | step hx _ ih =>
    cases hm with
    | last hy => exact absurd (hy.symm.trans hx) (by simp)
    | step hy hm =>
      rw [hx, Option.some.injEq] at hy
      subst hy
      rw [ih hm]

section

variable (h : Trail next x l)

include h

theorem suffix (hy : y ∈ l) : ∃ m, m <:+ l ∧ Trail next y m := by
  induction h with
  | last hx =>
    rw [List.mem_singleton] at hy
    subst hy
    exact ⟨_,List.suffix_rfl,.last hx⟩
  | @step x z l hx hl ih =>
    rcases List.mem_cons.1 hy with rfl | hy
    · exact ⟨_,List.suffix_rfl,.step hx hl⟩
    · obtain ⟨m,hm,ht⟩ := ih hy
      exact ⟨m,hm.trans (List.suffix_cons x l),ht⟩

theorem nodup : l.Nodup := by
  induction h with
  | last => exact List.nodup_singleton _
  | @step x y l hx hl ih =>
    refine List.nodup_cons.2 ⟨fun hmem => ?_,ih⟩
    -- a second meeting would start the same trail once more, inside the rest of it
    obtain ⟨m,hm,ht⟩ := hl.suffix hmem
    have heq := ht.unique (.step hx hl)
    have hlen := hm.length_le
    rw [heq, List.length_cons] at hlen
    omega

theorem getLast : ∃ y, l.getLast? = some y ∧ next y = none := by
  induction h with
  | @last x hx => exact ⟨x,rfl,hx⟩
  | @step x y l hx hl ih =>
    obtain ⟨z,hz,hn⟩ := ih
    refine ⟨z,?_,hn⟩
    rw [List.getLast?_cons, hz]
    rfl

theorem mem_zip {a b : α} : (a, b) ∈ l.zip l.tail ↔ a ∈ l ∧ next a = some b := by
  induction h with
  | @last x hx =>
    simp only [List.tail_cons, List.zip_nil_right, List.not_mem_nil, List.mem_singleton,
      false_iff, not_and]
    rintro rfl hb
    exact absurd (hx.symm.trans hb) (by simp)
  | @step x y l hx hl ih =>
    have hzip : (x :: l).zip (x :: l).tail = (x,y) :: l.zip l.tail := by
      cases hl <;> rfl
    rw [hzip, List.mem_cons, ih, List.mem_cons, Prod.mk.injEq]
    constructor
    · rintro (⟨rfl,rfl⟩ | ⟨hmem,hb⟩)
      · exact ⟨.inl rfl,hx⟩
      · exact ⟨.inr hmem,hb⟩
    · rintro ⟨rfl | hmem,hb⟩
      · exact .inl ⟨rfl,Option.some.inj (hb.symm.trans hx)⟩
      · exact .inr ⟨hmem,hb⟩

theorem mem_of_ne_head (hy : y ∈ l) (hne : y ≠ x) : ∃ z, next z = some y := by
  induction h with
  | last => exact absurd (List.mem_singleton.1 hy) hne
  | @step x z l hx hl ih =>
    rcases List.mem_cons.1 hy with rfl | hy
    · exact absurd rfl hne
    · by_cases hyz : y = z
      · exact ⟨x,hyz ▸ hx⟩
      · exact ih hy hyz

theorem last_of_none (hy : y ∈ l) (hn : next y = none) : l.getLast? = some y := by
  induction h with
  | last => rw [List.mem_singleton.1 hy]; rfl
  | @step x z l hx hl ih =>
    rcases List.mem_cons.1 hy with rfl | hy
    · exact absurd (hn.symm.trans hx) (by simp)
    · rw [List.getLast?_cons, ih hy]
      rfl

end

theorem of_zip (hhead : l.head? = some x) (hzip : ∀ a b, (a, b) ∈ l.zip l.tail → next a = some b)
    (hlast : ∀ y, l.getLast? = some y → next y = none) : Trail next x l := by
  induction l generalizing x with
  | nil => cases hhead
  | cons z l ih =>
    obtain rfl : z = x := Option.some.inj hhead
    cases l with
    | nil => exact .last (hlast z rfl)
    | cons w l =>
      refine .step (hzip z w List.mem_cons_self) (ih rfl (fun a b hab => ?_) fun y hy => ?_)
      · exact hzip a b (List.mem_cons_of_mem _ hab)
      · refine hlast y ?_
        rw [List.getLast?_cons, hy]
        rfl

end Trail

theorem map_fst_zip_sublist {β : Type*} (l : List α) (m : List β) :
    ((l.zip m).map Prod.fst).Sublist l := by
  induction l generalizing m with
  | nil => exact List.Sublist.slnil
  | cons x l ih =>
    cases m with
    | nil => exact List.nil_sublist _
    | cons y m => exact (ih m).cons_cons x

theorem not_mem_zip_of_getLast (hl : l.Nodup) (hx : l.getLast? = some x) :
    (x, y) ∉ l.zip l.tail := by
  induction l with
  | nil => cases hx
  | cons z l ih =>
    cases l with
    | nil => exact List.not_mem_nil
    | cons w l =>
      intro hmem
      rcases List.mem_cons.1 hmem with heq | hmem
      · have hxz := (Prod.mk.inj heq).1
        refine (List.nodup_cons.1 hl).1 ?_
        rw [← hxz]
        exact List.mem_of_getLast? hx
      · exact ih (List.nodup_cons.1 hl).2 hx hmem

def walk (next : α → Option α) : Nat → α → Nat → Option Nat
  | 0, _, _ => none
  | left + 1, x, visited =>
    match next x with
    | none => some (visited + 1)
    | some y => walk next left y (visited + 1)

theorem walk_of_trail (h : Trail next x l) {left : Nat} (hle : l.length ≤ left) (visited : Nat) :
    walk next left x visited = some (visited + l.length) := by
  induction h generalizing left visited with
  | last hx =>
    obtain ⟨k,rfl⟩ := Nat.exists_eq_succ_of_ne_zero (Nat.one_le_iff_ne_zero.1 hle)
    simp [walk, hx]
  | @step x y l hx hl ih =>
    rw [List.length_cons] at hle
    obtain ⟨k,rfl⟩ : ∃ k, left = k + 1 := ⟨left - 1,by omega⟩
    simp only [walk, hx]
    rw [ih (by omega), List.length_cons]
    congr 1
    omega

theorem trail_of_walk {left visited total : Nat} (h : walk next left x visited = some total) :
    ∃ l, Trail next x l ∧ total = visited + l.length := by
  induction left generalizing x visited with
  | zero => cases h
  | succ left ih =>
    rw [walk] at h
    split at h
    · rename_i hx
      refine ⟨[x],.last hx,?_⟩
      rw [← Option.some.inj h]
      rfl
    · rename_i y hx
      obtain ⟨l,hl,htotal⟩ := ih h
      refine ⟨x :: l,.step hx hl,?_⟩
      rw [List.length_cons]
      omega

theorem perm_range {l : List Nat} {n : Nat} (hnodup : l.Nodup) (hlt : ∀ x ∈ l, x < n)
    (hlen : l.length = n) : l.Perm (List.range n) := by
  have hsub : l.Subperm (List.range n) := hnodup.subperm fun x hx => List.mem_range.2 (hlt x hx)
  refine hsub.perm_of_length_le ?_
  rw [List.length_range, hlen]

end SuccessorTrail
