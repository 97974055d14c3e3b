import Mathlib.Data.List.Basic

/-!
Stable rearrangements of a list under a total preorder, and sorted runs of a fixed width that are
merged pairwise.
-/

namespace Salts.StableMerge

variable {α : Type} {le : α → α → Bool}

def tied (le : α → α → Bool) (a b : α) : Bool := le a b && le b a

/-- `out` holds the elements of `xs`, and each class of tied elements in its order in `xs`. -/
structure Rearranges (le : α → α → Bool) (xs out : List α) : Prop where
  perm : out.Perm xs
  ties : ∀ a, out.filter (tied le a) = xs.filter (tied le a)

structure StablySorts (le : α → α → Bool) (xs out : List α) : Prop extends
    Rearranges le xs out where
  sorted : out.Pairwise (fun a b => le a b = true)

/-- The list is a row of sorted runs of `w` elements, of which the last may be shorter. -/
inductive Runs (le : α → α → Bool) (w : Nat) : List α → Prop
  | last {l : List α} : l.length ≤ w → l.Pairwise (fun a b => le a b = true) → Runs le w l
  | cons {a l : List α} : a.length = w → a.Pairwise (fun a b => le a b = true) → Runs le w l →
      Runs le w (a ++ l)

theorem Rearranges.refl (xs : List α) : Rearranges le xs xs := ⟨.refl _,fun _ => rfl⟩

variable {xs ys zs l : List α}

theorem Rearranges.trans (h₁ : Rearranges le xs ys)
    (h₂ : Rearranges le ys zs) : Rearranges le xs zs :=
  ⟨h₂.perm.trans h₁.perm,fun a => (h₂.ties a).trans (h₁.ties a)⟩

theorem Rearranges.append {xs xs' ys ys' : List α} (h₁ : Rearranges le xs xs')
    (h₂ : Rearranges le ys ys') : Rearranges le (xs ++ ys) (xs' ++ ys') :=
  ⟨h₁.perm.append h₂.perm,fun a => by
    rw [List.filter_append, List.filter_append, h₁.ties, h₂.ties]⟩

theorem Rearranges.length (h : Rearranges le xs ys) : ys.length = xs.length :=
  h.perm.length_eq

section Order

variable (trans : ∀ a b c, le a b = true → le b c = true → le a c = true)
variable (total : ∀ a b, (le a b || le b a) = true)

include trans total

theorem filter_tied_eq_nil {a b : α} (hnot : le a b = false)
    (hsorted : (a :: l).Pairwise (fun a b => le a b = true)) :
    (a :: l).filter (tied le b) = [] := by
  rw [List.filter_eq_nil_iff]
  intro c hc htied
  obtain ⟨-,hcb⟩ : le b c = true ∧ le c b = true := by simpa [tied] using htied
  have hac : le a c = true := by
    rcases List.mem_cons.1 hc with rfl | hc
    · simpa using total c c
    · exact (List.pairwise_cons.1 hsorted).1 c hc
  rw [trans a c b hac hcb] at hnot
  cases hnot

theorem filter_merge (a : α) (xs ys : List α) (hxs : xs.Pairwise (fun a b => le a b = true)) :
    (xs.merge ys le).filter (tied le a) = xs.filter (tied le a) ++ ys.filter (tied le a) := by
  induction xs generalizing ys with
  | nil => simp
  | cons x xs ih =>
    induction ys with
    | nil => simp
    | cons y ys ihy =>
      rw [List.cons_merge_cons]
      split
      · rw [List.filter_cons, ih _ hxs.tail, List.filter_cons (x := x)]
        split <;> simp
      · rename_i hnot
        rw [List.filter_cons, ihy, List.filter_cons (x := y)]
        -- `y` overtakes `xs`, none of which can be tied with it
        split
        · rename_i htied
          have hnil : (x :: xs).filter (tied le a) = [] := by
            have hya : le y a = true ∧ le a y = true := by
              simpa [tied, and_comm] using htied
            have hxa : le x a = false := by
              cases hxa : le x a with
              | false => rfl
              | true => exact absurd (trans x a y hxa hya.2) hnot
            exact filter_tied_eq_nil trans total hxa hxs
          rw [hnil]
          rfl
        · rfl

theorem rearranges_merge (hxs : xs.Pairwise (fun a b => le a b = true)) :
    Rearranges le (xs ++ ys) (xs.merge ys le) :=
  ⟨List.merge_perm_append le,fun a => by
    rw [filter_merge trans total a xs ys hxs, List.filter_append]⟩

end Order

theorem StablySorts.unique (total : ∀ a b, (le a b || le b a) = true)
    (hy : StablySorts le xs ys) (hz : StablySorts le xs zs) : ys = zs := by
  have hties (a) : ys.filter (tied le a) = zs.filter (tied le a) :=
    (hy.ties a).trans (hz.ties a).symm
  have hperm := hy.perm.trans hz.perm.symm
  have hys := hy.sorted
  have hzs := hz.sorted
  clear hy hz
  induction ys generalizing zs with
  | nil => exact hperm.nil_eq
  | cons y ys ih =>
    cases zs with
    | nil => exact hperm.eq_nil
    | cons z zs =>
      have hself (a) : le a a = true := by simpa using total a a
      have hyz : le y z = true := by
        rcases List.mem_cons.1 (hperm.mem_iff.2 List.mem_cons_self) with h | h
        · exact h ▸ hself z
        · exact (List.pairwise_cons.1 hys).1 z h
      have hzy : le z y = true := by
        rcases List.mem_cons.1 (hperm.mem_iff.1 List.mem_cons_self) with h | h
        · exact h ▸ hself y
        · exact (List.pairwise_cons.1 hzs).1 y h
      have hhead := hties y
      rw [List.filter_cons_of_pos (by simp [tied, hself]),
        List.filter_cons_of_pos (by simp [tied, hyz, hzy])] at hhead
      obtain ⟨rfl,-⟩ := List.cons.inj hhead
      congr 1
      refine ih (fun a => ?_) hperm.cons_inv hys.tail hzs.tail
      have hrest := hties a
      rw [List.filter_cons, List.filter_cons] at hrest
      split at hrest
      · exact (List.cons.inj hrest).2
      · exact hrest

variable {w : Nat}

theorem Runs.take (h : Runs le w l) : (l.take w).Pairwise (fun a b => le a b = true) := by
  cases h with
  | last hlen hsorted => exact hsorted.sublist (List.take_sublist _ _)
  | cons hlen hsorted _ => rwa [List.take_left' hlen]

theorem Runs.drop (h : Runs le w l) : Runs le w (l.drop w) := by
  cases h with
  | last hlen hsorted =>
    rw [List.drop_eq_nil_of_le hlen]
    exact .last (by simp) .nil
  | cons hlen _ hrest => rwa [List.drop_left' hlen]

theorem Runs.sorted (h : Runs le w l) (hw : l.length ≤ w) :
    l.Pairwise (fun a b => le a b = true) := by
  simpa [List.take_of_length_le hw] using h.take

theorem runs_one (l : List α) : Runs le 1 l := by
  induction l with
  | nil => exact .last (by simp) .nil
  | cons a l ih => exact Runs.cons rfl (List.pairwise_singleton _ _) ih

end Salts.StableMerge
