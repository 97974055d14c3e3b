import Mathlib.Data.List.InsertIdx
import Mathlib.Data.List.Nodup
import Mathlib.Logic.Function.Basic

/-!
A doubly linked list in a memory of cells, and what splicing a cell in and out does to the sequence
of cells it threads.  The owner of the list plays the cell `none` before the first and after the
last: `next none` is its `first` pointer and `previous none` its `last`.
-/

namespace EntryChain

open Function (update update_of_ne update_self)

structure Chain where
  next : Option Nat → Option Nat
  previous : Option Nat → Option Nat

def empty : Chain := ⟨fun _ => none, fun _ => none⟩

def insertBefore (c : Chain) (after : Option Nat) (link : Nat) : Chain :=
  let before := c.previous after
  { next := update (update c.next (some link) after) before (some link)
    previous := update (update c.previous (some link) before) after (some link) }

def unlink (c : Chain) (link : Nat) : Chain :=
  { next := update c.next (c.previous (some link)) (c.next (some link))
    previous := update c.previous (c.next (some link)) (c.previous (some link)) }

/-- The `k`-th cell of the closed walk through the list, which starts and ends at its owner. -/
def cell (ids : List Nat) : Nat → Option Nat
  | 0 => none
  | k + 1 => ids[k]?

structure Threads (c : Chain) (ids : List Nat) : Prop where
  nodup : ids.Nodup
  next : ∀ k ≤ ids.length, c.next (cell ids k) = cell ids (k + 1)
  previous : ∀ k ≤ ids.length, c.previous (cell ids (k + 1)) = cell ids k

theorem threads_empty : Threads empty [] :=
  ⟨List.nodup_nil,fun k _ => by cases k <;> rfl,fun k hk => by
    rw [Nat.le_zero.1 hk]
    rfl⟩

variable {ids as bs : List Nat} {j k link : Nat}

theorem getElem?_inj (h : ids.Nodup) (hj : j < ids.length) (heq : ids[j]? = ids[k]?) : j = k := by
  rw [List.getElem?_eq_getElem hj] at heq
  obtain ⟨hk,hget⟩ := List.getElem?_eq_some_iff.1 heq.symm
  exact h.getElem_inj_iff.1 hget.symm

theorem cell_inj (h : ids.Nodup) (hj : j ≤ ids.length)
    (hk : k ≤ ids.length) (heq : cell ids j = cell ids k) : j = k := by
  cases j with
  | zero =>
    cases k with
    | zero => rfl
    | succ k => simp [cell] at heq; omega
  | succ j =>
    cases k with
    | zero => simp [cell] at heq; omega
    | succ k => rw [getElem?_inj h hj heq]

theorem cell_succ_inj (h : ids.Nodup) (hj : j ≤ ids.length)
    (hk : k ≤ ids.length) (heq : cell ids (j + 1) = cell ids (k + 1)) : j = k := by
  rcases Nat.lt_or_ge j ids.length with hlt | hge
  · exact getElem?_inj h hlt heq
  · rcases Nat.lt_or_ge k ids.length with hlt | hge'
    · exact (getElem?_inj h hlt heq.symm).symm
    · omega

theorem cell_ne (h : link ∉ ids) (k : Nat) : cell ids k ≠ some link := by
  cases k with
  | zero => simp [cell]
  | succ k => exact fun heq => h (List.mem_of_getElem? heq)

theorem cell_append (as bs : List Nat) (k : Nat) :
    cell (as ++ bs) k = if k ≤ as.length then cell as k else bs[k - 1 - as.length]? := by
  cases k with
  | zero => rfl
  | succ k =>
    simp only [cell, List.getElem?_append, Nat.succ_le_iff, Nat.add_sub_cancel]

theorem cell_insert (as bs : List Nat) (link k : Nat) :
    cell (as ++ link :: bs) k =
      if k ≤ as.length then cell (as ++ bs) k
      else if k = as.length + 1 then some link else cell (as ++ bs) (k - 1) := by
  rw [cell_append, cell_append, cell_append]
  split_ifs with h1 h2 h3
  · rfl
  · rw [h2, show as.length+1-1-as.length = 0 by omega]
    rfl
  · omega
  · rw [show k-1-as.length = k-1-1-as.length+1 by omega, List.getElem?_cons_succ]

theorem Threads.insertBefore {c : Chain} (h : Threads c (as ++ bs)) (hfresh : link ∉ as ++ bs) :
    Threads (insertBefore c bs.head? link) (as ++ link :: bs) := by
  have hlen : (as ++ bs).length = as.length+bs.length := List.length_append
  have hafter : bs.head? = cell (as ++ bs) (as.length+1) := by
    rw [cell_append, if_neg (by omega), List.head?_eq_getElem?]
    congr 1
    omega
  have hbefore : c.previous bs.head? = cell (as ++ bs) as.length := by
    rw [hafter, h.previous _ (by omega)]
  have hlink := cell_ne hfresh
  refine ⟨?_,fun k hk => ?_,fun k hk => ?_⟩
  · rw [List.nodup_middle]
    exact List.nodup_cons.2 ⟨hfresh,h.nodup⟩
  · simp only [EntryChain.insertBefore, hbefore]
    rw [List.length_append, List.length_cons] at hk
    rw [cell_insert, cell_insert]
    rcases Nat.lt_trichotomy k as.length with hlt | rfl | hgt
    · rw [if_pos (by omega), if_pos (by omega), update_of_ne, update_of_ne
        (hlink k), h.next k (by omega)]
      exact fun heq => by have := cell_inj h.nodup (by omega) (by omega) heq; omega
    · rw [if_pos (Nat.le_refl _), if_neg (by omega), if_pos rfl, update_self]
    · rw [if_neg (Nat.not_le.2 hgt), if_neg (show ¬k+1 ≤ as.length by omega),
        if_neg (show ¬k+1 = as.length+1 by omega)]
      by_cases hnew : k = as.length+1
      · rw [if_pos hnew, update_of_ne (hlink _).symm, update_self, hafter, hnew]
        rfl
      · rw [if_neg hnew, update_of_ne, update_of_ne (hlink _),
          h.next _ (by omega), show k-1+1 = k+1-1 by omega]
        exact fun heq => by have := cell_inj h.nodup (by omega) (by omega) heq; omega
  · simp only [EntryChain.insertBefore, hbefore]
    rw [List.length_append, List.length_cons] at hk
    rw [cell_insert, cell_insert, hafter]
    rcases Nat.lt_trichotomy k as.length with hlt | rfl | hgt
    · rw [if_pos (by omega), if_pos (by omega), update_of_ne, update_of_ne
        (hlink _), h.previous k (by omega)]
      exact fun heq => by have := cell_succ_inj h.nodup (by omega) (by omega) heq; omega
    · rw [if_neg (by omega), if_pos rfl, if_pos (Nat.le_refl _),
        update_of_ne (hlink _).symm, update_self]
    · rw [if_neg (Nat.not_le.2 hgt), if_neg (show ¬k+1 ≤ as.length by omega),
        if_neg (show ¬k+1 = as.length+1 by omega)]
      by_cases hnew : k = as.length+1
      · rw [if_pos hnew, hnew, show as.length+1+1-1 = as.length+1 by omega, update_self]
      · rw [if_neg hnew, update_of_ne, update_of_ne (hlink _),
          show k+1-1 = k-1+1 by omega, h.previous _ (by omega)]
        intro heq
        rw [show k+1-1 = k-1+1 by omega] at heq
        have := cell_succ_inj h.nodup (by omega) (by omega) heq
        omega

theorem Threads.unlink {c : Chain}
    (h : Threads c (as ++ link :: bs)) : Threads (unlink c link) (as ++ bs) := by
  obtain ⟨hfresh,hnodup⟩ := List.nodup_cons.1 (List.nodup_middle.1 h.nodup)
  have hlink := cell_ne hfresh
  have hlen : (as ++ bs).length = as.length+bs.length := List.length_append
  have hlong : (as ++ link :: bs).length = as.length+bs.length+1 := List.length_append
  have hself : cell (as ++ link :: bs) (as.length+1) = some link := by
    rw [cell_insert, if_neg (by omega), if_pos rfl]
  have hbefore : c.previous (some link) = cell (as ++ bs) as.length := by
    rw [← hself, h.previous _ (by omega), cell_insert, if_pos (Nat.le_refl _)]
  have hafter : c.next (some link) = cell (as ++ bs) (as.length+1) := by
    rw [← hself, h.next _ (by omega), cell_insert, if_neg (by omega), if_neg (by omega)]
    rfl
  refine ⟨hnodup,fun k hk => ?_,fun k hk => ?_⟩
  · simp only [EntryChain.unlink, hbefore, hafter]
    have hlow := h.next k (by omega)
    have hhigh := h.next (k+1) (by omega)
    rw [cell_insert, cell_insert] at hlow hhigh
    rcases Nat.lt_trichotomy k as.length with hlt | rfl | hgt
    · rw [update_of_ne]
      · rwa [if_pos (by omega), if_pos (by omega)] at hlow
      exact fun heq => by have := cell_inj hnodup (by omega) (by omega) heq; omega
    · rw [update_self]
    · rw [update_of_ne]
      · rwa [if_neg (by omega), if_neg (by omega), if_neg (by omega), if_neg (by omega)] at hhigh
      exact fun heq => by have := cell_inj hnodup (by omega) (by omega) heq; omega
  · simp only [EntryChain.unlink, hbefore, hafter]
    have hlow := h.previous k (by omega)
    have hhigh := h.previous (k+1) (by omega)
    rw [cell_insert, cell_insert] at hlow hhigh
    rcases Nat.lt_trichotomy k as.length with hlt | rfl | hgt
    · rw [update_of_ne]
      · rwa [if_pos (by omega), if_pos (by omega)] at hlow
      exact fun heq => by have := cell_succ_inj hnodup (by omega) (by omega) heq; omega
    · rw [update_self]
    · rw [update_of_ne]
      · rwa [if_neg (by omega), if_neg (by omega), if_neg (by omega), if_neg (by omega)] at hhigh
      exact fun heq => by have := cell_succ_inj hnodup (by omega) (by omega) heq; omega

end EntryChain
