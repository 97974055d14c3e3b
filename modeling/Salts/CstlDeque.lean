import Salts.CstlBasic
import Salts.RingSlots

/-!
The ring buffer of `deque.c` and the list it stands for.  A slot keeps the value last written to
it; which slots are elements is up to the head and the size.
-/

namespace Salts.Cstl

open RingSlots

structure Deque (α : Type) extends SequenceLayout where
  slots : Nat → Option α
  size : Nat
  head : Nat
  capacity : Nat
  generation : Nat

structure DequeEnv where
  prepared : Malloc
  copies : Bool
  storage : Malloc

namespace Deque

variable {α : Type}

def initBytes (elemSize elemAlign limit generation : Nat) : Except StlStatus (Deque α) :=
  match sequenceStride elemSize elemAlign with
  | .error status => .error status
  | .ok stride => .ok {
      elementLimit := limit, elemStride := stride, elemAlign := elemAlign
      slots := fun _ => none, size := 0, head := 0, capacity := 0
      generation := wrap (generation + 1) }

abbrev Reply (α : Type) := Deque α × StlStatus × Option α

def physical (d : Deque α) (index : Nat) : Nat := wrap (d.head + index) % d.capacity

def elementAt (d : Deque α) (index : Nat) : Option α :=
  if index < d.size then d.slots (d.physical index) else none

def growTo (malloc : Malloc) (d : Deque α) (minimum : Nat) : Except StlStatus (Deque α) :=
  match grownCapacity malloc d.toSequenceLayout d.capacity minimum with
  | .error status => .error status
  | .ok capacity =>
    if minimum ≤ d.capacity then .ok d
    else .ok { d with
      slots := fun i => if i < d.size then d.slots (d.physical i) else none
      capacity := capacity, head := 0 }

def putBack (elem : α) (d : Deque α) : Deque α :=
  { d with
    slots := Function.update d.slots (d.physical d.size) (some elem)
    size := d.size + 1, generation := wrap (d.generation + 1) }

def putFront (elem : α) (d : Deque α) : Deque α :=
  let head := if d.head = 0 then d.capacity - 1 else d.head - 1
  { d with
    slots := Function.update d.slots head (some elem)
    head := head, size := d.size + 1, generation := wrap (d.generation + 1) }

def push (put : Deque α → Deque α) (env : DequeEnv) (d : Deque α) : Reply α :=
  if d.elementLimit ≤ d.size then (d, .capacityExceeded, none)
  else
    match prepareCopy env.prepared env.copies d.toSequenceLayout with
    | .ok =>
      match d.growTo env.storage (d.size + 1) with
      | .error status => (d, status, none)
      | .ok grown => (put grown, .ok, none)
    | status => (d, status, none)

def pushBack (env : DequeEnv) (elem : α) : Deque α → Reply α := push (putBack elem) env

def pushFront (env : DequeEnv) (elem : α) : Deque α → Reply α := push (putFront elem) env

def pop (slot head : Nat) (d : Deque α) : Reply α :=
  if d.size = 0 then (d, .empty, none)
  else
    ({ d with
        size := d.size - 1, head := if d.size - 1 = 0 then 0 else head
        generation := wrap (d.generation + 1) }, .ok, d.slots slot)

def popBack (d : Deque α) : Reply α := pop (d.physical (d.size - 1)) d.head d

def popFront (d : Deque α) : Reply α := pop d.head (d.physical 1) d

def set (env : DequeEnv) (index : Nat) (elem : α) (d : Deque α) : Reply α :=
  if d.size ≤ index then (d, .invalidArgument, none)
  else
    match prepareCopy env.prepared env.copies d.toSequenceLayout with
    | .ok =>
      ({ d with
          slots := Function.update d.slots (d.physical index) (some elem)
          generation := wrap (d.generation + 1) }, .ok, none)
    | status => (d, status, none)

def reserve (env : DequeEnv) (minimum : Nat) (d : Deque α) : Reply α :=
  match d.growTo env.storage minimum with
  | .error status => (d, status, none)
  | .ok grown =>
    (if minimum ≤ d.capacity then grown
      else { grown with generation := wrap (grown.generation + 1) }, .ok, none)

def clear (d : Deque α) : Reply α :=
  (if d.size = 0 then d else { d with
    size := 0, head := 0, generation := wrap (d.generation + 1) }, .ok, none)

inductive Call (α : Type)
  | pushBack (env : DequeEnv) (elem : α)
  | pushFront (env : DequeEnv) (elem : α)
  | popBack
  | popFront
  | set (env : DequeEnv) (index : Nat) (elem : α)
  | reserve (env : DequeEnv) (minimum : Nat)
  | clear

namespace Call

def exec : Call α → Deque α → Reply α
  | .pushBack env elem => Deque.pushBack env elem
  | .pushFront env elem => Deque.pushFront env elem
  | .popBack => Deque.popBack
  | .popFront => Deque.popFront
  | .set env index elem => Deque.set env index elem
  | .reserve env minimum => Deque.reserve env minimum
  | .clear => Deque.clear

def onList : Call α → List α → List α × Option α
  | .pushBack _ elem, l => (l ++ [elem], none)
  | .pushFront _ elem, l => (elem :: l, none)
  | .popBack, l => (l.dropLast, l.getLast?)
  | .popFront, l => (l.tail, l.head?)
  | .set _ index elem, l => (l.set index elem, none)
  | .reserve _ _, l => (l, none)
  | .clear, _ => ([], none)

def Fits : Call α → Prop
  | .pushBack env _ => env.storage.Fits
  | .pushFront env _ => env.storage.Fits
  | .reserve env _ => env.storage.Fits
  | _ => True

/-- Why a call may fail: the limit, an allocation or a copy, an empty deque, a bad index. -/
def Refused (d : Deque α) (l : List α) : Call α → Prop
  | .pushBack env _ => PushRefused env
  | .pushFront env _ => PushRefused env
  | .popBack => l = []
  | .popFront => l = []
  | .set env index _ => l.length ≤ index ∨ d.Uncopied env.prepared env.copies
  | .reserve env minimum => d.Ungrown env.storage d.capacity minimum
  | .clear => False
where
  PushRefused (env : DequeEnv) : Prop :=
    d.elementLimit ≤ l.length ∨ d.Uncopied env.prepared env.copies ∨
      d.Ungrown env.storage d.capacity (l.length + 1)

end Call

structure Inv (d : Deque α) (l : List α) : Prop where
  layout : d.Sound
  small : d.capacity < 2 ^ 63
  size : l.length = d.size
  ring : Holds d.capacity d.head d.slots l

variable {d : Deque α} {l : List α} {env : DequeEnv} {elem : α} {i : Nat}

section

variable (h : Inv d l)

include h

theorem Inv.room : d.size ≤ d.capacity := h.size ▸ h.ring.room

theorem Inv.physical (hpos : 0 < d.capacity) (hi : i ≤ d.capacity) :
    d.physical i = ringSlot d.capacity d.head i := by
  have hhead := h.ring.headInside hpos
  have hsmall := h.small
  have hwrap : wrap (d.head+i) = d.head+i := Nat.mod_eq_of_lt (by omega)
  rw [Deque.physical, hwrap, ringSlot]
  split
  · exact Nat.mod_eq_of_lt ‹_›
  · rw [Nat.mod_eq_sub_mod (by omega), Nat.mod_eq_of_lt (by omega)]

theorem Inv.slots (hi : i < d.size) : d.slots (d.physical i) = l[i]? := by
  have hroom := h.room
  rw [h.physical (by omega) (by omega)]
  exact h.ring.slots i (h.size ▸ hi)

theorem Inv.elementAt (i : Nat) : d.elementAt i = l[i]? := by
  unfold Deque.elementAt
  split
  · exact h.slots ‹_›
  · rw [List.getElem?_eq_none (by have := h.size; omega)]

theorem Inv.growTo {malloc : Malloc} (hfits : malloc.Fits) (minimum : Nat) :
    (∃ d', d.growTo malloc minimum = .ok d' ∧ Inv d' l ∧ minimum ≤ d'.capacity) ∨
      ∃ status, status ≠ .ok ∧ d.growTo malloc minimum = .error status ∧
        d.Ungrown malloc d.capacity minimum := by
  unfold Deque.growTo
  cases hcapacity : grownCapacity malloc d.toSequenceLayout d.capacity minimum with
  | error status =>
    obtain ⟨hne,hwhy⟩ := grownCapacity_error h.layout hcapacity
    exact .inr ⟨status,hne,rfl,hwhy⟩
  | ok capacity =>
    obtain ⟨hmin,hle,hsmall,-⟩ := grownCapacity_ok hcapacity h.layout.stride hfits h.small
    dsimp only
    split
    · exact .inl ⟨d,rfl,h,‹_›⟩
    refine .inl ⟨_,rfl,⟨h.layout,hsmall,h.size,.front ?_ fun i hi => ?_⟩,hmin⟩
    · exact h.ring.room.trans hle
    · have hi : i < d.size := h.size ▸ hi
      exact (if_pos hi).trans (h.slots hi)

theorem Inv.putBack (hlt : d.size < d.capacity) : Inv (d.putBack elem) (l ++ [elem]) := by
  refine ⟨h.layout,h.small,by simp [Deque.putBack, h.size],?_⟩
  show Holds d.capacity d.head (Function.update d.slots (d.physical d.size) (some elem)) _
  rw [h.physical (by omega) hlt.le, ← h.size]
  exact h.ring.concat (h.size ▸ hlt)

theorem Inv.putFront (hlt : d.size < d.capacity) : Inv (d.putFront elem) (elem :: l) := by
  have hhead := h.ring.headInside (by omega)
  refine ⟨h.layout,h.small,by simp [Deque.putFront, h.size],?_⟩
  have hnew : (d.putFront elem).head = if d.head = 0 then d.capacity-1 else d.head-1 := rfl
  refine h.ring.cons (h.size ▸ hlt) ?_ ?_
  · rw [hnew]
    split <;> omega
  · rw [hnew, ringSlot]
    split <;> split <;> omega

variable {l' : List α}

theorem Inv.push (hfits : env.storage.Fits) (put : Deque α → Deque α)
    (hput : ∀ d' : Deque α, Inv d' l → d'.size < d'.capacity → Inv (put d') l') :
    (∃ d', push put env d = (d', .ok, none) ∧ Inv d' l') ∨
      ∃ status, status ≠ .ok ∧ push put env d = (d, status, none) ∧
        Call.Refused.PushRefused d l env := by
  unfold Deque.push
  split
  · exact .inr ⟨_,by decide,rfl,.inl (by rw [h.size]; assumption)⟩
  split
  · rcases h.growTo hfits (d.size + 1) with ⟨d',hok,hd',hroom⟩ | ⟨status,hne,herror,hwhy⟩
    · have hsize := hd'.size.symm.trans h.size
      rw [hok]
      exact .inl ⟨_,rfl,hput d' hd' (by omega)⟩
    · rw [herror]
      exact .inr ⟨status,hne,rfl,.inr (.inr (h.size ▸ hwhy))⟩
  · exact .inr ⟨_,‹_›,rfl,.inr (.inl (prepareCopy_error h.layout ‹_›))⟩

theorem Inv.pop (hpos : 0 < d.size) (slot head : Nat)
    (hlen : l'.length = d.size - 1) (hring : Holds d.capacity head d.slots l') :
    Inv (d.pop slot head).1 l' ∧ (d.pop slot head).2 = (.ok, d.slots slot) := by
  unfold Deque.pop
  rw [if_neg (by omega)]
  refine ⟨⟨h.layout,h.small,hlen,?_⟩,rfl⟩
  split
  · rw [List.eq_nil_of_length_eq_zero (hlen.trans ‹_›)]
    exact .nil id
  · exact hring

theorem Inv.popBack (hpos : 0 < d.size) :
    Inv d.popBack.1 l.dropLast ∧ d.popBack.2 = (.ok, l.getLast?) := by
  obtain ⟨hinv,hreply⟩ := h.pop hpos (d.physical (d.size - 1)) d.head (by simp [h.size])
    h.ring.dropLast
  refine ⟨hinv,hreply.trans ?_⟩
  rw [h.slots (by omega), List.getLast?_eq_getElem?, h.size]

theorem Inv.popFront (hpos : 0 < d.size) :
    Inv d.popFront.1 l.tail ∧ d.popFront.2 = (.ok, l.head?) := by
  have hroom := h.room
  have hsize := h.size
  cases l with
  | nil => exact absurd hsize (by simp; omega)
  | cons x l =>
    obtain ⟨hfirst,hring⟩ := h.ring.uncons
    rw [← h.physical (by omega) (by omega)] at hring
    obtain ⟨hinv,hreply⟩ := h.pop hpos d.head (d.physical 1) (by simp [← hsize]) hring
    exact ⟨hinv,hreply.trans (by rw [hfirst]; rfl)⟩

theorem Inv.put (hi : i < d.size) (generation : Nat) :
    Inv { d with
      slots := Function.update d.slots (d.physical i) (some elem)
      generation := generation } (l.set i elem) := by
  have hroom := h.room
  refine ⟨h.layout,h.small,by simp [h.size],?_⟩
  rw [h.physical (by omega) (by omega)]
  exact h.ring.set (h.size ▸ hi)

/-- A call that succeeds does what it does on the list; one that fails has a reason and changes
nothing. -/
theorem Inv.exec (call : Call α) (hfits : call.Fits) :
    ((call.exec d).2 = (.ok, (call.onList l).2) ∧ Inv (call.exec d).1 (call.onList l).1) ∨
      ((call.exec d).2.1 ≠ .ok ∧ (call.exec d).2.2 = none ∧ (call.exec d).1 = d ∧
        call.Refused d l) := by
  have hempty : d.size = 0 → l = [] := fun hzero => List.eq_nil_of_length_eq_zero (h.size.trans hzero)
  cases call with
  | pushBack env elem =>
    rcases h.push hfits (Deque.putBack elem) fun d' hd' hlt => hd'.putBack hlt with
      ⟨d',heq,hinv⟩ | ⟨status,hne,heq,hwhy⟩
    · exact .inl (by simpa [Call.exec, Deque.pushBack, heq, Call.onList] using hinv)
    · exact .inr (by simpa [Call.exec, Deque.pushBack, heq] using ⟨hne,hwhy⟩)
  | pushFront env elem =>
    rcases h.push hfits (Deque.putFront elem) fun d' hd' hlt => hd'.putFront hlt with
      ⟨d',heq,hinv⟩ | ⟨status,hne,heq,hwhy⟩
    · exact .inl (by simpa [Call.exec, Deque.pushFront, heq, Call.onList] using hinv)
    · exact .inr (by simpa [Call.exec, Deque.pushFront, heq] using ⟨hne,hwhy⟩)
  | popBack =>
    by_cases hpos : 0 < d.size
    · exact .inl (h.popBack hpos).symm
    · have hzero : d.size = 0 := by omega
      exact .inr (by simp [Call.exec, Deque.popBack, Deque.pop, hzero, Call.Refused, hempty hzero])
  | popFront =>
    by_cases hpos : 0 < d.size
    · exact .inl (h.popFront hpos).symm
    · have hzero : d.size = 0 := by omega
      exact .inr (by simp [Call.exec, Deque.popFront, Deque.pop, hzero, Call.Refused, hempty hzero])
  | set env index elem =>
    simp only [Call.exec, Deque.set]
    split
    · exact .inr ⟨nofun,rfl,rfl,.inl (by rw [h.size]; assumption)⟩
    split
    · exact .inl ⟨rfl,h.put (by omega) _⟩
    · exact .inr ⟨‹_›,rfl,rfl,.inr (prepareCopy_error h.layout ‹_›)⟩
  | reserve env minimum =>
    simp only [Call.exec, Deque.reserve]
    rcases h.growTo hfits minimum with ⟨d',hok,hd',-⟩ | ⟨status,hne,herror,hwhy⟩
    · rw [hok]
      refine .inl ⟨rfl,?_⟩
      dsimp only
      split
      · exact hd'
      · exact ⟨hd'.layout,hd'.small,hd'.size,hd'.ring⟩
    · rw [herror]
      exact .inr ⟨hne,rfl,rfl,hwhy⟩
  | clear =>
    refine .inl ⟨rfl,?_⟩
    simp only [Call.exec, Deque.clear, Call.onList]
    split
    · rw [← hempty ‹_›]
      exact h
    · exact ⟨h.layout,h.small,rfl,.nil id⟩

end

def run (s : Deque α × List α) (calls : List (Call α)) : Deque α × List α :=
  calls.foldl (fun s call =>
    ((call.exec s.1).1, if (call.exec s.1).2.1 = .ok then (call.onList s.2).1 else s.2)) s

theorem Inv.run {s : Deque α × List α} (h : Inv s.1 s.2) (calls : List (Call α))
    (hcalls : ∀ call ∈ calls, call.Fits) : Inv (run s calls).1 (run s calls).2 := by
  induction calls generalizing s with
  | nil => exact h
  | cons call calls ih =>
    obtain ⟨hcall,hrest⟩ := List.forall_mem_cons.1 hcalls
    refine ih ?_ hrest
    rcases h.exec call hcall with ⟨hok,hinv⟩ | ⟨hne,-,hsame,-⟩
    · simpa [hok] using hinv
    · simpa [hne, hsame] using h

end Deque

end Salts.Cstl
