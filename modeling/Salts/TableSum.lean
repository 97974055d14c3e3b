import Mathlib.Algebra.BigOperators.Intervals
import Mathlib.Algebra.Order.BigOperators.Group.Finset
import Mathlib.Algebra.Order.Ring.Nat

/-!
A table of records and the weight of its first `n` rows together.  One row is updated at a time, so
a counter beside the table stays right when it changes as the weight of the row does.
-/

namespace TableSum

open Function (update update_of_ne update_self)

variable {α : Type*} {w : α → Nat} {n i : Nat} {f g : Nat → α} {x : α}

def tally (w : α → Nat) (n : Nat) (f : Nat → α) : Nat := ∑ i ∈ Finset.range n, w (f i)

theorem tally_succ : tally w (n + 1) f = tally w n f + w (f n) := Finset.sum_range_succ ..

theorem tally_congr (h : ∀ j < n, w (f j) = w (g j)) : tally w n f = tally w n g :=
  Finset.sum_congr rfl fun j hj => h j (Finset.mem_range.1 hj)

theorem tally_update (hi : i < n) (x : α) :
    tally w n (update f i x) + w (f i) = tally w n f + w x := by
  induction n with
  | zero => cases hi
  | succ n ih =>
    rw [tally_succ, tally_succ]
    rcases Nat.lt_succ_iff_lt_or_eq.1 hi with hlt | rfl
    · have hrow : update f i x n = f n := update_of_ne hlt.ne' ..
      rw [hrow]
      omega
    · have hbelow : tally w i (update f i x) = tally w i f :=
        tally_congr fun j hj => by rw [update_of_ne hj.ne]
      rw [update_self]
      omega

section Counter

variable {a : Nat} (h : a = tally w n f)

include h

theorem tally_update_eq (hw : w x = w (f i)) : a = tally w n (update f i x) := by
  refine h.trans (tally_congr fun j _ => ?_)
  by_cases hj : j = i
  · rw [hj, update_self, hw]
  · rw [update_of_ne hj]

theorem tally_update_succ (hi : i < n) (hw : w x = w (f i) + 1) :
    a + 1 = tally w n (update f i x) := by
  have := tally_update (w := w) (f := f) hi x
  omega

theorem tally_update_pred (hi : i < n) (hw : w (f i) = w x + 1) :
    a - 1 = tally w n (update f i x) := by
  have := tally_update (w := w) (f := f) hi x
  omega

end Counter

theorem weight_le_tally (hi : i < n) : w (f i) ≤ tally w n f :=
  Finset.single_le_sum (f := fun j => w (f j)) (fun _ _ => Nat.zero_le _) (Finset.mem_range.2 hi)

theorem tally_mono {k : Nat} (h : n ≤ k) : tally w n f ≤ tally w k f :=
  Finset.sum_le_sum_of_subset (Finset.range_mono h)

theorem tally_toNat (p : α → Bool) :
    tally (fun x => (p x).toNat) n f = ((Finset.range n).filter fun i => p (f i) = true).card := by
  rw [Finset.card_filter]
  refine Finset.sum_congr rfl fun i _ => ?_
  show (p (f i)).toNat = if p (f i) = true then 1 else 0
  cases p (f i) <;> rfl

end TableSum
