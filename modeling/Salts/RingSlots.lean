import Mathlib.Data.List.Basic
import Mathlib.Order.Nat

/-!
A list laid out in a ring of slots: its elements stand one behind the other from the head on, and
behind the last slot the ring goes on at the first.  A slot keeps what was last written to it.
-/

namespace RingSlots

variable {α : Type*} {capacity head i j : Nat}

def ringSlot (capacity head i : Nat) : Nat :=
  if head + i < capacity then head + i else head + i - capacity

theorem ringSlot_zero (hhead : head < capacity) : ringSlot capacity head 0 = head :=
  if_pos hhead

theorem ringSlot_ne (hi : i < capacity) (hj : j < capacity) (hne : i ≠ j) :
    ringSlot capacity head i ≠ ringSlot capacity head j := by
  unfold ringSlot
  split <;> split <;> omega

theorem ringSlot_next (hhead : head < capacity) (hi : i < capacity) :
    ringSlot capacity (ringSlot capacity head 1) i = ringSlot capacity head (i + 1) := by
  unfold ringSlot
  split <;> split <;> split <;> omega

structure Holds (capacity head : Nat) (slots : Nat → Option α) (l : List α) : Prop where
  headInside : 0 < capacity → head < capacity
  room : l.length ≤ capacity
  slots : ∀ i < l.length, slots (ringSlot capacity head i) = l[i]?

namespace Holds

variable {slots : Nat → Option α} {l : List α} {x : α}

theorem nil (h : 0 < capacity → head < capacity) : Holds capacity head slots [] :=
  ⟨h,Nat.zero_le _,nofun⟩

theorem front (hroom : l.length ≤ capacity) (hslots : ∀ i < l.length, slots i = l[i]?) :
    Holds capacity 0 slots l := by
  refine ⟨id,hroom,fun i hi => ?_⟩
  rw [ringSlot, Nat.zero_add, if_pos (hi.trans_le hroom)]
  exact hslots i hi

theorem concat (h : Holds capacity head slots l) (hlt : l.length < capacity) :
    Holds capacity head
      (Function.update slots (ringSlot capacity head l.length) (some x)) (l ++ [x]) := by
  refine ⟨h.headInside,by simpa using Nat.succ_le_of_lt hlt,fun i hi => ?_⟩
  rw [List.length_append, List.length_singleton] at hi
  rcases Nat.lt_succ_iff_lt_or_eq.1 hi with hi | rfl
  · have hne : ringSlot capacity head i ≠ ringSlot capacity head l.length :=
      ringSlot_ne (hi.trans hlt) hlt hi.ne
    rw [Function.update_of_ne hne, h.slots i hi, List.getElem?_append_left hi]
  · rw [Function.update_self, List.getElem?_concat_length]

theorem cons (h : Holds capacity head slots l) (hlt : l.length < capacity) {first : Nat}
    (hfirst : first < capacity) (hnext : ringSlot capacity first 1 = head) :
    Holds capacity first (Function.update slots first (some x)) (x :: l) := by
  refine ⟨fun _ => hfirst,hlt,fun i hi => ?_⟩
  cases i with
  | zero => rw [ringSlot_zero hfirst, Function.update_self, List.getElem?_cons_zero]
  | succ i =>
    have hi := Nat.lt_of_succ_lt_succ hi
    have hne : ringSlot capacity first (i+1) ≠ ringSlot capacity first 0 :=
      ringSlot_ne (by omega) (by omega) (Nat.succ_ne_zero i)
    rw [ringSlot_zero hfirst] at hne
    rw [Function.update_of_ne hne, ← ringSlot_next hfirst (by omega), hnext, h.slots i hi,
      List.getElem?_cons_succ]

theorem uncons (h : Holds capacity head slots (x :: l)) :
    slots head = some x ∧ Holds capacity (ringSlot capacity head 1) slots l := by
  have hroom : l.length < capacity := h.room
  have hhead := h.headInside (Nat.zero_lt_of_lt hroom)
  have hfirst := h.slots 0 (Nat.succ_pos _)
  rw [ringSlot_zero hhead] at hfirst
  refine ⟨hfirst,fun _ => ?_,hroom.le,fun i hi => ?_⟩
  · unfold ringSlot
    split <;> omega
  · rw [ringSlot_next hhead (hi.trans hroom)]
    exact h.slots (i+1) (Nat.succ_lt_succ hi)

theorem dropLast (h : Holds capacity head slots l) : Holds capacity head slots l.dropLast := by
  have hlen : l.dropLast.length = l.length-1 := List.length_dropLast
  refine ⟨h.headInside,by have := h.room; omega,fun i hi => ?_⟩
  rw [List.getElem?_dropLast, if_pos (by omega)]
  exact h.slots i (by omega)

theorem set (h : Holds capacity head slots l) (hi : i < l.length) :
    Holds capacity head (Function.update slots (ringSlot capacity head i) (some x)) (l.set i x) := by
  have hroom := h.room
  refine ⟨h.headInside,by simpa using hroom,fun j hj => ?_⟩
  rw [List.length_set] at hj
  by_cases hij : i = j
  · rw [hij, Function.update_self, List.getElem?_set_self hj]
  · have hne : ringSlot capacity head j ≠ ringSlot capacity head i :=
      ringSlot_ne (by omega) (by omega) (Ne.symm hij)
    rw [Function.update_of_ne hne, List.getElem?_set_ne hij, h.slots j hj]

end Holds

end RingSlots
