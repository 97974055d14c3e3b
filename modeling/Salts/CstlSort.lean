import Salts.CstlBasic
import Salts.StableMerge

/-!
`stable_sort` of `sort.c`: a bottom-up merge sort between the array and one scratch array. Every
slot records what it holds and what was done to it, and an operation on a slot in the wrong state
has no result.
-/

namespace Salts.Cstl

open Function (update update_of_ne update_self)

/-- What the bytes of one slot hold; slots past the end of the array are `outside`. -/
inductive SlotValue (α : Type)
  | outside
  | raw
  | live (v : α)
  | movedFrom

inductive SlotEvent
  | construct
  | moveOut
  | destroy
  deriving DecidableEq

structure Slot (α : Type) where
  value : SlotValue α
  history : List SlotEvent

abbrev Slots (α : Type) := Nat → Slot α

namespace Slot

variable {α : Type}

def read (s : Slot α) : Option α :=
  match s.value with
  | .live v => some v
  | _ => none

def construct (s : Slot α) (v : α) : Option (Slot α) :=
  match s.value with
  | .raw => some ⟨.live v, s.history ++ [.construct]⟩
  | _ => none

/-- The source of a `move_construct`: its value, and the slot as the move leaves it. -/
def moveOut (s : Slot α) : Option (α × Slot α) :=
  match s.value with
  | .live v => some (v, ⟨.movedFrom, s.history ++ [.moveOut]⟩)
  | _ => none

def destroy (s : Slot α) : Option (Slot α) :=
  match s.value with
  | .live _ | .movedFrom => some ⟨.raw, s.history ++ [.destroy]⟩
  | _ => none

end Slot

/-- The two arrays, as the pointers `source` and `destination` name them. -/
structure SortArrays (α : Type) where
  source : Slots α
  destination : Slots α

section Merge

variable {α : Type} (compare : α → α → Ordering)

/-- `move_construct` into slot `output`, then `destroy` of the slot the value came from. -/
def SortArrays.transfer (m : SortArrays α) (output selected : Nat) : Option (SortArrays α) := do
  let (v, moved) ← (m.source selected).moveOut
  let filled ← (m.destination output).construct v
  let gone ← moved.destroy
  return { source := update m.source selected gone
           destination := update m.destination output filled }

/-- The loop over both runs of `sort_merge`, with the indices it ends at. -/
def mergeBoth (m : SortArrays α) (first middle second right output : Nat) :
    Option (SortArrays α × Nat × Nat × Nat) :=
  if first < middle ∧ second < right then do
    let a ← (m.source first).read
    let b ← (m.source second).read
    if (compare a b).isLE then
      let m ← m.transfer output first
      mergeBoth m (first + 1) middle second right (output + 1)
    else
      let m ← m.transfer output second
      mergeBoth m first middle (second + 1) right (output + 1)
  else some (m, first, second, output)
termination_by (middle - first) + (right - second)

def mergeRest (m : SortArrays α) (next stop output : Nat) : Option (SortArrays α × Nat) :=
  if next < stop then do
    let m ← m.transfer output next
    mergeRest m (next + 1) stop (output + 1)
  else some (m, output)
termination_by stop - next

def sortMerge (m : SortArrays α) (left middle right : Nat) : Option (SortArrays α) := do
  let (m, first, second, output) ← mergeBoth compare m left middle middle right left
  let (m, output) ← mergeRest m first middle output
  let (m, _) ← mergeRest m second right output
  return m

/-- One pass over the array with runs of `width`; a pass that never ends has no result. -/
def mergePass (count width : Nat) : Nat → Nat → SortArrays α → Option (SortArrays α)
  | 0, left, m => if left < count then none else some m
  | fuel + 1, left, m =>
    if left < count then do
      let middle := if wrap (left + width) < count then wrap (left + width) else count
      let right := if wrap (middle + width) < count then wrap (middle + width) else count
      let m ← sortMerge compare m left middle right
      mergePass count width fuel (wrap (left + wrap (width * 2))) m
    else some m

/-- The passes, swapping the two arrays after each; the flag tells whether `source == base`. -/
def mergePasses (count : Nat) : Nat → Nat → SortArrays α → Bool → Option (SortArrays α × Bool)
  | 0, width, m, atBase => if width < count then none else some (m, atBase)
  | fuel + 1, width, m, atBase =>
    if width < count then do
      let m ← mergePass compare count width count 0 m
      let width := if width > count / 2 then count else wrap (width * 2)
      mergePasses count fuel width ⟨m.destination, m.source⟩ (!atBase)
    else some (m, atBase)

end Merge

section Copy

variable {α : Type}

def sortDestroyRange : Nat → Nat → Slots α → Option (Slots α)
  | 0, _, slots => some slots
  | count + 1, index, slots => do
      let gone ← (slots index).destroy
      sortDestroyRange count (index + 1) (update slots index gone)

/-- The copies into the scratch array. `copies` says which `copy_construct` succeeds; the result
also names the slot whose copy failed. -/
def copyAll (copies : Nat → Bool) (base : Slots α) :
    Nat → Nat → Slots α → Option (Slots α × Option Nat)
  | 0, _, scratch => some (scratch, none)
  | count + 1, copied, scratch => do
      let v ← (base copied).read
      if copies copied then
        let filled ← (scratch copied).construct v
        copyAll copies base count (copied + 1) (update scratch copied filled)
      else return (scratch, some copied)

/-- The loop that moves the values back when the last pass ended in the scratch array. -/
def moveBack : Nat → Nat → SortArrays α → Option (SortArrays α)
  | 0, _, m => some m
  | count + 1, index, m => do
      let m ← m.transfer index index
      moveBack count (index + 1) m

end Copy

structure SortType (α : Type) where
  size : Nat
  align : Nat
  hasCompare : Bool
  hasCopy : Bool
  hasMove : Bool
  hasDestroy : Bool
  compare : α → α → Ordering

/-- What a call leaves: its status, the array, and the scratch array when it is given back. -/
structure SortResult (α : Type) where
  status : StlStatus
  base : Slots α
  scratch : Slots α

section Call

variable {α : Type}

def noSlots : Slots α := fun _ => ⟨.outside, []⟩

def freshSlots (count : Nat) : Slots α := fun i => ⟨if i < count then .raw else .outside, []⟩

def sortWith (compare : α → α → Ordering) (copies : Nat → Bool) (base : Slots α) (count : Nat) :
    Option (SortResult α) := do
  let (scratch, failed) ← copyAll copies base count 0 (freshSlots count)
  match failed with
  | some copied =>
    let scratch ← sortDestroyRange copied 0 scratch
    return ⟨.outOfMemory, base, scratch⟩
  | none =>
    let base ← sortDestroyRange count 0 base
    let (m, atBase) ← mergePasses compare count count 1 ⟨scratch, base⟩ false
    if atBase then return ⟨.ok, m.source, m.destination⟩
    else
      let m ← moveBack count 0 m
      return ⟨.ok, m.destination, m.source⟩

def sortReturns (status : StlStatus) (base : Slots α) : Option (SortResult α) :=
  some ⟨status, base, noSlots⟩

def stableSort (malloc : Malloc) (copies : Nat → Bool) (address : Nat) (base : Slots α)
    (count : Nat) (type : Option (SortType α)) (scratchByteLimit : Nat) : Option (SortResult α) :=
  match type with
  | none => sortReturns .invalidArgument base
  | some type =>
    if type.size == 0 || !alignmentValid type.align then sortReturns .invalidArgument base
    else if !(type.hasCompare && type.hasCopy && type.hasMove && type.hasDestroy) then
      sortReturns .traitMissing base
    else if count == 0 then sortReturns .ok base
    else if address == 0 then sortReturns .invalidArgument base
    else if address % type.align != 0 then sortReturns .invalidArgument base
    else if count == 1 then sortReturns .ok base
    else
      match sequenceStride type.size type.align with
      | .error status => sortReturns status base
      | .ok stride =>
        match sequenceBytes count stride with
        | .error status => sortReturns status base
        | .ok bytes =>
          if bytes > scratchByteLimit then sortReturns .capacityExceeded base
          else
            match sequenceAllocate malloc count stride type.align with
            | .error status => sortReturns status base
            | .ok _ => sortWith type.compare copies base count

end Call

/-! ### What the loops do to the slots -/

open StableMerge

def sortLe (compare : α → α → Ordering) (a b : α) : Bool := (compare a b).isLE

theorem sortLe_trans (compare : α → α → Ordering) [Std.TransCmp compare] (a b c : α) :
    sortLe compare a b = true → sortLe compare b c = true → sortLe compare a c = true :=
  Std.TransCmp.isLE_trans

theorem sortLe_total (compare : α → α → Ordering) [Std.TransCmp compare] (a b : α) :
    (sortLe compare a b || sortLe compare b a) = true := by
  have hswap : compare b a = (compare a b).swap := Std.OrientedCmp.eq_swap
  unfold sortLe
  rw [hswap]
  cases compare a b <;> rfl

def Slot.vacate (s : Slot α) : Slot α := ⟨.raw, s.history ++ [.moveOut, .destroy]⟩

def Slot.fill (s : Slot α) (v : α) : Slot α := ⟨.live v, s.history ++ [.construct]⟩

def Holds (slots : Slots α) (lo : Nat) (vs : List α) : Prop :=
  ∀ (k : Nat) (v : α), vs[k]? = some v → (slots (lo + k)).value = .live v

def Raw (slots : Slots α) (lo n : Nat) : Prop := ∀ k < n, (slots (lo + k)).value = .raw

def vacated (slots : Slots α) (lo n : Nat) : Slots α :=
  fun i => if lo ≤ i ∧ i < lo + n then (slots i).vacate else slots i

def filled (slots : Slots α) (lo : Nat) (vs : List α) : Slots α :=
  fun i => if lo ≤ i then (vs[i - lo]?).elim (slots i) (slots i).fill else slots i

variable {m : SortArrays α} {slots : Slots α} {lo i n count w fuel : Nat} {vs xs ys : List α}
   {s : Slot α} {v : α}

theorem transfer_eq {output selected : Nat} (hsource : (m.source selected).value = .live v)
    (hdestination : (m.destination output).value = .raw) :
    m.transfer output selected = some
      ⟨update m.source selected (m.source selected).vacate,
        update m.destination output ((m.destination output).fill v)⟩ := by
  simp [SortArrays.transfer, Slot.moveOut, Slot.construct, Slot.destroy, Slot.vacate, Slot.fill,
    hsource, hdestination]

theorem Holds.head (h : Holds slots lo (v :: vs)) : (slots lo).value = .live v := h 0 v rfl

theorem Holds.tail (h : Holds slots lo (v :: vs)) : Holds slots (lo + 1) vs := fun k w hw => by
  simpa [Nat.add_assoc, Nat.add_comm 1 k] using h (k+1) w (by simpa using hw)

theorem Holds.update (h : Holds slots lo vs) (hi : i < lo ∨ lo + vs.length ≤ i) :
    Holds (update slots i s) lo vs := fun k v hv => by
  have hk := (List.getElem?_eq_some_iff.1 hv).1
  rw [update_of_ne (by omega)]
  exact h k v hv

theorem Raw.update (h : Raw slots lo n)
    (hi : i < lo) : Raw (update slots i s) lo n := fun k hk => by
  rw [update_of_ne (by omega)]
  exact h k hk

theorem Raw.head (h : Raw slots lo (n + 1)) : (slots lo).value = .raw := h 0 (by omega)

theorem Raw.tail (h : Raw slots lo (n + 1)) : Raw slots (lo + 1) n := fun k hk => by
  simpa [Nat.add_assoc, Nat.add_comm 1 k] using h (k+1) (by omega)

section

variable (slots : Slots α)

@[simp] theorem vacated_zero (lo : Nat) : vacated slots lo 0 = slots := by
  funext i
  simp only [vacated]
  rw [if_neg (by omega)]

@[simp] theorem filled_nil (lo : Nat) : filled slots lo [] = slots := by
  funext i
  simp [filled]

theorem vacated_succ (lo n : Nat) :
    vacated (update slots lo (slots lo).vacate) (lo + 1) n = vacated slots lo (n + 1) := by
  funext i
  unfold vacated
  rcases eq_or_ne i lo with rfl | hi
  · rw [if_neg (by omega), if_pos (by omega), update_self]
  · rw [update_of_ne hi]
    split_ifs <;> first | rfl | omega

theorem filled_cons (lo : Nat) (v : α) (vs : List α) :
    filled (update slots lo ((slots lo).fill v)) (lo + 1) vs = filled slots lo (v :: vs) := by
  funext i
  unfold filled
  rcases eq_or_ne i lo with rfl | hi
  · simp
  rw [update_of_ne hi]
  split_ifs
  · rw [show i-lo = (i-(lo+1))+1 by omega, List.getElem?_cons_succ]
  · omega
  · omega
  · rfl

theorem vacated_of_notMem (hi : i < lo ∨ lo + n ≤ i) : vacated slots lo n i = slots i := by
  unfold vacated
  rw [if_neg (by omega)]

theorem vacated_update_comm (hi : i < lo ∨ lo + n ≤ i) :
    vacated (update slots i (slots i).vacate) lo n =
      update (vacated slots lo n) i (vacated slots lo n i).vacate := by
  funext j
  rw [vacated_of_notMem slots hi]
  rcases eq_or_ne j i with rfl | hj
  · rw [vacated_of_notMem _ hi, update_self, update_self]
  · rw [update_of_ne hj, vacated, vacated, update_of_ne hj]

end

theorem mergeRest_spec (vs : List α) (m : SortArrays α) (next output : Nat)
    (hvs : Holds m.source next vs) (hraw : Raw m.destination output vs.length) :
    mergeRest m next (next + vs.length) output = some
      (⟨vacated m.source next vs.length, filled m.destination output vs⟩, output + vs.length) := by
  induction vs generalizing m next output with
  | nil =>
    rw [mergeRest]
    simp
  | cons v vs ih =>
    rw [mergeRest, if_pos (by simp), transfer_eq hvs.head hraw.head]
    dsimp only [bind, Option.bind, List.length_cons]
    rw [show next+(vs.length+1) = next+1+vs.length by omega,
      ih _ (next+1) (output+1) (hvs.tail.update (by omega)) (hraw.tail.update (by omega))]
    rw [vacated_succ, filled_cons, show output+1+vs.length = output+(vs.length+1) by omega]

theorem read_eq (h : s.value = .live v) : s.read = some v := by
  simp [Slot.read, h]

theorem merge_loops (compare : α → α → Ordering) (xs ys : List α) (m : SortArrays α)
    (first second output : Nat) (hxs : Holds m.source first xs) (hys : Holds m.source second ys)
    (hraw : Raw m.destination output (xs.length + ys.length)) (hsep : first + xs.length ≤ second) :
    (do
      let (m, f, s, o) ← mergeBoth compare m first (first + xs.length) second
        (second + ys.length) output
      let (m, o) ← mergeRest m f (first + xs.length) o
      let (m, _) ← mergeRest m s (second + ys.length) o
      return m) =
    some ⟨vacated (vacated m.source first xs.length) second ys.length,
      filled m.destination output (xs.merge ys (sortLe compare))⟩ := by
  induction xs generalizing m first second output ys with
  | nil =>
    rw [mergeBoth, if_neg (by simp)]
    simp only [List.length_nil, Nat.zero_add, bind, Option.bind] at *
    rw [mergeRest]
    simp [mergeRest_spec ys m second output hys hraw]
  | cons x xs ih =>
    induction ys generalizing m second output with
    | nil =>
      rw [mergeBoth, if_neg (by simp)]
      have hrest := mergeRest_spec (x :: xs) m first output hxs hraw
      simp only [bind, Option.bind, hrest]
      rw [mergeRest]
      simp
    | cons y ys ihy =>
      have hx := hxs.head
      have hy := hys.head
      have hout := hraw.head
      rw [mergeBoth, if_pos (by simp), read_eq hx, read_eq hy, List.cons_merge_cons]
      simp only [Option.bind_eq_bind, Option.bind_some]
      cases hle : (compare x y).isLE with
      | true =>
        rw [if_pos rfl, if_pos (show sortLe compare x y = true from hle),
          transfer_eq hx hout, Option.bind_some]
        have hraw' : Raw m.destination output (xs.length+(y :: ys).length+1) := by
          rwa [Nat.add_right_comm]
        have hrec := ih (y :: ys)
          ⟨update m.source first (m.source first).vacate,
            update m.destination output ((m.destination output).fill x)⟩
          (first+1) second (output+1) (hxs.tail.update (by omega))
          (hys.update (by simp at hsep; omega)) (hraw'.tail.update (by omega))
          (by simp at hsep; omega)
        rw [vacated_succ, filled_cons] at hrec
        rw [show first+(x :: xs).length = first+1+xs.length by simp; omega]
        exact hrec
      | false =>
        rw [if_neg (by simp), if_neg (show ¬sortLe compare x y = true by simp [sortLe, hle]),
          transfer_eq hy hout]
        have hrec := ihy
          ⟨update m.source second (m.source second).vacate,
            update m.destination output ((m.destination output).fill y)⟩
          (second+1) (output+1) (hxs.update (.inr hsep))
          (hys.tail.update (by omega)) (hraw.tail.update (by omega)) (by omega)
        rw [vacated_update_comm _ (.inr hsep), filled_cons, vacated_succ] at hrec
        rw [show second+(y :: ys).length = second+1+ys.length by simp; omega]
        exact hrec

theorem vacated_vacated (slots : Slots α) (lo n k : Nat) :
    vacated (vacated slots lo n) (lo + n) k = vacated slots lo (n + k) := by
  funext i
  unfold vacated
  split_ifs <;> first | rfl | omega

theorem filled_filled (slots : Slots α) (lo : Nat) (xs ys : List α) :
    filled (filled slots lo xs) (lo + xs.length) ys = filled slots lo (xs ++ ys) := by
  funext i
  unfold filled
  by_cases hlo : lo ≤ i
  · rw [if_pos hlo, if_pos hlo, List.getElem?_append]
    by_cases hxs : i-lo < xs.length
    · rw [if_neg (by omega), if_pos hxs]
    · rw [if_pos (by omega), if_neg hxs, List.getElem?_eq_none (Nat.le_of_not_lt hxs),
        show i-(lo+xs.length) = i-lo-xs.length by omega]
      rfl
  · rw [if_neg hlo, if_neg hlo, if_neg (by omega)]

theorem Holds.left (h : Holds slots lo (xs ++ ys)) : Holds slots lo xs := fun k v hv =>
  h k v (by rw [List.getElem?_append_left (List.getElem?_eq_some_iff.1 hv).1, hv])

theorem Holds.right (h : Holds slots lo (xs ++ ys)) :
    Holds slots (lo + xs.length) ys := fun k v hv => by
  rw [Nat.add_assoc]
  exact h (xs.length+k) v (by simpa [List.getElem?_append_right] using hv)

variable {left : Nat}

theorem sortMerge_spec (compare : α → α → Ordering) (hvs : Holds m.source left (xs ++ ys))
    (hraw : Raw m.destination left (xs ++ ys).length) :
    sortMerge compare m left (left + xs.length) (left + xs.length + ys.length) = some
      ⟨vacated m.source left (xs ++ ys).length,
        filled m.destination left (xs.merge ys (sortLe compare))⟩ := by
  rw [List.length_append] at hraw ⊢
  have h := merge_loops compare xs ys m left (left+xs.length) left hvs.left hvs.right hraw
    le_rfl
  rw [vacated_vacated] at h
  exact h

theorem Holds.vacated (h : Holds slots lo (xs ++ ys)) :
    Holds (Cstl.vacated slots lo xs.length) (lo + xs.length) ys := fun k v hv => by
  rw [vacated_of_notMem slots (.inr (by omega))]
  exact h.right k v hv

theorem Raw.filled (h : Raw slots lo (xs.length + n)) :
    Raw (Cstl.filled slots lo xs) (lo + xs.length) n := fun k hk => by
  have hout : xs[lo+xs.length+k-lo]? = none := List.getElem?_eq_none (by omega)
  rw [Cstl.filled]
  simpa [Nat.add_assoc] using h (xs.length+k) (by omega)

theorem mergePass_step (compare : α → α → Ordering) (hcount : count ≤ 2 ^ 63) (hw : w ≤ 2 ^ 62)
    (hleft : left < count) (hxs : left + xs.length = min (left + w) count)
    (hys : left + (xs ++ ys).length = min (left + w * 2) count)
    (hvs : Holds m.source left (xs ++ ys)) (hraw : Raw m.destination left (xs ++ ys).length) :
    mergePass compare count w (fuel + 1) left m =
      mergePass compare count w fuel (left + w * 2)
        ⟨vacated m.source left (xs ++ ys).length,
          filled m.destination left (xs.merge ys (sortLe compare))⟩ := by
  rw [List.length_append] at hys
  have hmiddle : (if wrap (left+w) < count then wrap (left+w) else count) = left+xs.length := by
    rw [wrap, Nat.mod_eq_of_lt (by omega)]
    split_ifs <;> omega
  have hright : (if wrap (left+xs.length+w) < count then wrap (left+xs.length+w)
      else count) = left+xs.length+ys.length := by
    rw [wrap, Nat.mod_eq_of_lt (by omega)]
    split_ifs <;> omega
  have hnext : wrap (left+wrap (w * 2)) = left+w * 2 := by
    rw [wrap, wrap, Nat.mod_eq_of_lt (show w * 2 < 2 ^ 64 by omega), Nat.mod_eq_of_lt (by omega)]
  rw [mergePass, if_pos hleft]
  simp [hmiddle, hright, hnext, sortMerge_spec compare hvs hraw]

theorem mergePass_done (compare : α → α → Ordering)
    (h : ¬left < count) : mergePass compare count w fuel left m = some m := by
  cases fuel <;> simp [mergePass, h]

/-- One pass moves all values over and doubles the width of the sorted runs. The index `left` may
already be past the end, where nothing is left to merge. -/
theorem mergePass_spec (compare : α → α → Ordering) [Std.TransCmp compare] (hcount : count ≤ 2 ^ 63)
    (hpos : 0 < w) (hw : w ≤ 2 ^ 62) (fuel : Nat) (m : SortArrays α) (left : Nat) (vs : List α)
    (hlen : vs.length = count - left) (hfuel : vs.length ≤ fuel) (hvs : Holds m.source left vs)
    (hraw : Raw m.destination left vs.length) (hruns : Runs (sortLe compare) w vs) :
    ∃ out, mergePass compare count w fuel left m = some
        ⟨vacated m.source left vs.length, filled m.destination left out⟩ ∧
      Rearranges (sortLe compare) vs out ∧ Runs (sortLe compare) (w * 2) out := by
  by_cases hleft : left < count
  swap
  · obtain rfl : vs = [] := List.eq_nil_of_length_eq_zero (by omega)
    exact ⟨[],by simp [mergePass_done compare hleft],.refl _,.last (by simp) .nil⟩
  induction fuel generalizing m left vs with
  | zero => omega
  | succ fuel ih =>
    have hsplit : vs.take w ++ (vs.drop w).take w ++ vs.drop (w * 2) = vs := by
      rw [Nat.mul_two, ← List.drop_drop, List.append_assoc, List.take_append_drop,
        List.take_append_drop]
    have hxsort := hruns.take
    have hysort := hruns.drop.take
    have hrest : Runs (sortLe compare) w (vs.drop (w * 2)) := by
      rw [Nat.mul_two, ← List.drop_drop]
      exact hruns.drop.drop
    have hxslen : (vs.take w).length = min w vs.length := List.length_take ..
    have hboth : (vs.take w ++ (vs.drop w).take w).length = min (w * 2) vs.length := by
      simp only [List.length_append, List.length_take, List.length_drop]
      omega
    generalize vs.take w = xs at *
    generalize (vs.drop w).take w = ys at *
    generalize vs.drop (w * 2) = rest at *
    subst hsplit
    have hmerge : Rearranges (sortLe compare) (xs ++ ys) (xs.merge ys (sortLe compare)) :=
      rearranges_merge (sortLe_trans compare) (sortLe_total compare) hxsort
    have hsorted := List.pairwise_merge (sortLe_trans compare) (sortLe_total compare) xs ys
      hxsort hysort
    have hmlen := hmerge.length
    rw [@List.length_append _ (xs ++ ys) rest] at *
    rw [mergePass_step compare hcount hw hleft (by omega) (by omega) hvs.left
      (fun k hk => hraw k (by omega))]
    by_cases hmore : left+w * 2 < count
    · have hfull : (xs ++ ys).length = w * 2 := by omega
      obtain ⟨out,heq,hout,houtruns⟩ := ih
        ⟨vacated m.source left (xs ++ ys).length,
          filled m.destination left (xs.merge ys (sortLe compare))⟩
        (left+w * 2) rest (by omega) (by omega) (by rw [← hfull]; exact hvs.vacated)
        (by rw [← hfull, ← hmlen]; exact Raw.filled (by rwa [hmlen])) hrest hmore
      refine ⟨xs.merge ys (sortLe compare) ++ out,?_,hmerge.append hout,
        .cons (by omega) hsorted houtruns⟩
      rw [heq]
      dsimp only
      rw [← hfull, vacated_vacated, ← hmlen, filled_filled]
    · obtain rfl : rest = [] := List.eq_nil_of_length_eq_zero (by omega)
      refine ⟨xs.merge ys (sortLe compare),?_,by simpa using hmerge,.last (by omega) hsorted⟩
      rw [mergePass_done compare hmore]
      simp

end Salts.Cstl
