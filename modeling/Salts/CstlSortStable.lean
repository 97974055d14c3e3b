import Salts.CstlSort

/-!
A whole call of the stable sort: the array ends as the stable sorted permutation of its input, and
every value was moved out of each slot it had on the way, and destroyed there, once.
-/

namespace Salts.Cstl

open StableMerge

variable {α : Type}

def slotCycles (k : Nat) : List SlotEvent :=
  (List.replicate k [SlotEvent.construct, .moveOut, .destroy]).flatten

def occupied (origin : Slots α) (k : Nat) (vs : List α) : Slots α :=
  fun i => (vs[i]?).elim (origin i) fun v =>
    ⟨.live v, (origin i).history ++ slotCycles k ++ [.construct]⟩

/-- The slots that started as `origin`, after `k` values came to each of the first `n` and left. -/
def emptied (origin : Slots α) (k n : Nat) : Slots α :=
  fun i => if i < n then ⟨.raw, (origin i).history ++ slotCycles k⟩ else origin i

theorem slotCycles_succ (k : Nat) :
    slotCycles (k + 1) = slotCycles k ++ [.construct, .moveOut, .destroy] := by
  simp [slotCycles, List.replicate_succ']

theorem holds_occupied (origin : Slots α) (k : Nat) (vs : List α) :
    Holds (occupied origin k vs) 0 vs := fun i v hv => by
  simp [occupied, hv]

theorem raw_emptied (origin : Slots α) (k n : Nat) : Raw (emptied origin k n) 0 n :=
  fun i hi => by simp [emptied, hi]

theorem vacated_occupied (origin : Slots α) (k : Nat) (vs : List α) :
    vacated (occupied origin k vs) 0 vs.length = emptied origin (k + 1) vs.length := by
  funext i
  by_cases hi : i < vs.length
  · simp [vacated, occupied, emptied, hi, Slot.vacate, slotCycles_succ]
  · simp [vacated, occupied, emptied, hi]

theorem filled_emptied (origin : Slots α) (k : Nat) (vs : List α) :
    filled (emptied origin k vs.length) 0 vs = occupied origin k vs := by
  funext i
  by_cases hi : i < vs.length
  · simp [filled, occupied, emptied, hi, Slot.fill]
  · simp [filled, occupied, emptied, hi]

theorem mergePasses_spec (compare : α → α → Ordering) [Std.TransCmp compare]
    (origin : Bool → Slots α) {count : Nat} (hcount : count ≤ 2 ^ 63) (fuel w : Nat) (vs : List α)
    (k k' : Nat) (atBase : Bool) (hlen : vs.length = count) (hw : (∃ j, w = 2 ^ j) ∨ count ≤ w)
    (hfuel : count ≤ w + fuel) (hruns : Runs (sortLe compare) w vs) :
    ∃ out last last' ends, mergePasses compare count fuel w
        ⟨occupied (origin atBase) k vs, emptied (origin !atBase) k' count⟩ atBase =
          some (⟨occupied (origin ends) last out, emptied (origin !ends) last' count⟩, ends) ∧
      StablySorts (sortLe compare) vs out := by
  induction fuel generalizing w vs k k' atBase with
  | zero =>
    refine ⟨vs,k,k',atBase,?_,⟨.refl _,hruns.sorted (by omega)⟩⟩
    rw [mergePasses, if_neg (by omega)]
  | succ fuel ih =>
    by_cases hlt : w < count
    swap
    · refine ⟨vs,k,k',atBase,?_,⟨.refl _,hruns.sorted (by omega)⟩⟩
      rw [mergePasses, if_neg hlt]
    obtain ⟨j,rfl⟩ : ∃ j, w = 2 ^ j := hw.resolve_right (by omega)
    have hj : j ≤ 62 := by
      have : (2) ^ j < 2 ^ 63 := by omega
      exact Nat.le_of_lt_succ ((Nat.pow_lt_pow_iff_right (by decide)).1 this)
    have hsmall : (2) ^ j ≤ 2 ^ 62 := Nat.pow_le_pow_right (by decide) hj
    have hpos := Nat.two_pow_pos j
    obtain ⟨mid,heq,hmid,hmidruns⟩ := mergePass_spec compare hcount hpos hsmall count
      ⟨occupied (origin atBase) k vs,emptied (origin !atBase) k' count⟩ 0 vs (by omega)
      (by omega) (holds_occupied _ _ _) (hlen ▸ raw_emptied _ _ _) hruns
    have hmidlen := hmid.length.trans hlen
    rw [vacated_occupied, hlen] at heq
    rw [← hmidlen, filled_emptied, hmidlen] at heq
    rw [mergePasses, if_pos hlt, heq]
    have hnext : (∃ j', (if 2 ^ j > count / 2 then count else wrap (2 ^ j * 2)) = 2 ^ j') ∨
        count ≤ if 2 ^ j > count / 2 then count else wrap (2 ^ j * 2) := by
      split_ifs
      · exact .inr le_rfl
      · exact .inl ⟨j+1,by rw [wrap, Nat.mod_eq_of_lt (by omega), Nat.pow_succ]⟩
    have hnextruns : Runs (sortLe compare)
        (if 2 ^ j > count / 2 then count else wrap (2 ^ j * 2)) mid := by
      split_ifs
      · exact .last (by omega) (hmidruns.sorted (by omega))
      · rwa [wrap, Nat.mod_eq_of_lt (by omega)]
    have hgrows : count ≤ (if 2 ^ j > count / 2 then count else wrap (2 ^ j * 2))+fuel := by
      split_ifs
      · omega
      · rw [wrap]
        omega
    obtain ⟨out,last,last',ends,hrec,hout⟩ := ih _ mid k' (k + 1) (!atBase) hmidlen hnext
      hgrows hnextruns
    rw [Bool.not_not] at hrec
    exact ⟨out,last,last',ends,hrec,⟨hmid.trans hout.toRearranges,hout.sorted⟩⟩

theorem moveBack_spec (vs : List α) (m : SortArrays α) (index : Nat)
    (hvs : Holds m.source index vs) (hraw : Raw m.destination index vs.length) :
    moveBack vs.length index m =
      some ⟨vacated m.source index vs.length, filled m.destination index vs⟩ := by
  induction vs generalizing m index with
  | nil => simp [moveBack]
  | cons v vs ih =>
    rw [List.length_cons, moveBack, transfer_eq hvs.head hraw.head]
    simp only [Option.bind_eq_bind, Option.bind_some]
    rw [ih _ (index+1) (hvs.tail.update (by omega)) (hraw.tail.update (by omega)),
      vacated_succ, filled_cons]

def dropped (slots : Slots α) (lo n : Nat) : Slots α :=
  fun i => if lo ≤ i ∧ i < lo + n then ⟨.raw, (slots i).history ++ [.destroy]⟩ else slots i

theorem sortDestroyRange_spec (vs : List α) (slots : Slots α) (index : Nat)
    (hvs : Holds slots index vs) :
    sortDestroyRange vs.length index slots = some (dropped slots index vs.length) := by
  induction vs generalizing slots index with
  | nil =>
    have hnone : dropped slots index 0 = slots := by
      funext i
      rw [dropped, if_neg (by omega)]
    simp [sortDestroyRange, hnone]
  | cons v vs ih =>
    have hgone : (slots index).destroy = some ⟨.raw,(slots index).history ++ [.destroy]⟩ := by
      simp [Slot.destroy, hvs.head]
    rw [List.length_cons, sortDestroyRange, hgone]
    simp only [Option.bind_eq_bind, Option.bind_some]
    rw [ih _ (index+1) (hvs.tail.update (by omega))]
    congr 1
    funext i
    unfold dropped
    rcases eq_or_ne i index with rfl | hi
    · rw [if_neg (by omega), if_pos (by omega), Function.update_self]
    · rw [Function.update_of_ne hi]
      split_ifs <;> first | rfl | omega

theorem copyAll_spec (copies : Nat → Bool) (base : Slots α) (vs : List α) (scratch : Slots α)
    (copied : Nat) (hvs : Holds base copied vs) (hraw : Raw scratch copied vs.length) :
    (∀ k < vs.length, copies (copied + k) = true) ∧
        copyAll copies base vs.length copied scratch = some (filled scratch copied vs, none) ∨
      (∃ k < vs.length, copies (copied + k) = false ∧
        copyAll copies base vs.length copied scratch =
          some (filled scratch copied (vs.take k), some (copied + k))) := by
  induction vs generalizing scratch copied with
  | nil => simp [copyAll]
  | cons v vs ih =>
    have hstep : copyAll copies base (v :: vs).length copied scratch =
        if copies copied then
          copyAll copies base vs.length (copied+1)
            (Function.update scratch copied ((scratch copied).fill v))
        else some (scratch,some copied) := by
      rw [List.length_cons, copyAll, read_eq hvs.head]
      simp [Slot.construct, Slot.fill, hraw.head]
    rw [hstep]
    cases hcopy : copies copied with
    | false => exact .inr ⟨0,by simp,hcopy,by simp⟩
    | true =>
      rw [if_pos rfl]
      rcases ih (Function.update scratch copied ((scratch copied).fill v)) (copied + 1)
        hvs.tail (hraw.tail.update (by omega)) with ⟨hall,heq⟩ | ⟨k,hk,hfails,heq⟩
      · refine .inl ⟨?_,by rw [heq, filled_cons]⟩
        rintro (_ | k) hk
        · exact hcopy
        · rw [← Nat.add_assoc, Nat.add_right_comm]
          exact hall k (by simpa using hk)
      · refine .inr ⟨k+1,by simpa using hk,?_,?_⟩
        · rw [← Nat.add_assoc, Nat.add_right_comm]
          exact hfails
        · rw [heq, filled_cons, List.take_succ_cons, Nat.add_assoc, Nat.add_comm 1 k]

theorem filled_fresh (n : Nat) (vs : List α) :
    filled (freshSlots n) 0 vs = occupied (freshSlots n) 0 vs := by
  funext i
  by_cases hi : i < vs.length
  · simp [filled, occupied, hi, Slot.fill, slotCycles]
  · simp [filled, occupied, hi]

theorem emptied_dropped (base : Slots α) (n : Nat) :
    dropped base 0 n = emptied (dropped base 0 n) 0 n := by
  funext i
  by_cases hi : i < n
  · simp [dropped, emptied, hi, slotCycles]
  · simp [emptied, hi]

variable {base : Slots α} {values : List α}

theorem sortWith_spec (compare : α → α → Ordering) [Std.TransCmp compare] (copies : Nat → Bool)
    (hbase : Holds base 0 values) (hcount : values.length ≤ 2 ^ 63) :
    ((∀ i < values.length, copies i = true) ∧
      ∃ out k k', sortWith compare copies base values.length = some
          ⟨.ok, occupied (dropped base 0 values.length) k out,
            emptied (freshSlots values.length) k' values.length⟩ ∧
        StablySorts (sortLe compare) values out) ∨
    ∃ i < values.length, copies i = false ∧ ∃ scratch,
      sortWith compare copies base values.length = some ⟨.outOfMemory, base, scratch⟩ ∧
        ∀ j v, (scratch j).value ≠ .live v := by
  have hfresh : Raw (freshSlots values.length : Slots α) 0 values.length := fun i hi => by
    simp [freshSlots, hi]
  rcases copyAll_spec copies base values (freshSlots values.length) 0 hbase hfresh with
    ⟨hall,hcopies⟩ | ⟨i,hi,hfails,hcopies⟩
  · left
    refine ⟨fun i hi => by simpa using hall i hi,?_⟩
    have hdrop := sortDestroyRange_spec values base 0 hbase
    obtain ⟨out,k,k',ends,hpasses,hout⟩ := mergePasses_spec compare
      (fun atBase => if atBase then dropped base 0 values.length else freshSlots values.length)
      hcount values.length 1 values 0 0 false rfl (.inl ⟨0,rfl⟩) (by omega) (runs_one _)
    have hlen := hout.length
    simp only [Bool.not_false, Bool.false_eq_true, if_false, if_true] at hpasses
    rw [← emptied_dropped] at hpasses
    unfold sortWith
    rw [hcopies, filled_fresh]
    simp only [Option.bind_eq_bind, Option.bind_some, hdrop, hpasses]
    cases ends with
    | true => exact ⟨out,k,k',rfl,hout⟩
    | false =>
      -- the last pass ended in the scratch array
      have hback := moveBack_spec out
        ⟨occupied (freshSlots values.length) k out,
          emptied (dropped base 0 values.length) k' values.length⟩ 0 (holds_occupied _ _ _)
        (hlen ▸ raw_emptied _ _ _)
      rw [vacated_occupied] at hback
      rw [← hlen, filled_emptied, hlen] at hback
      refine ⟨out,k',k+1,?_,hout⟩
      simp only [Bool.false_eq_true, if_false, Bool.not_false, if_true]
      rw [hback]
      rfl
  · right
    rw [Nat.zero_add] at hfails hcopies
    have htake : (values.take i).length = i := by rw [List.length_take]; omega
    have hdrop := sortDestroyRange_spec (values.take i)
      (filled (freshSlots values.length) 0 (values.take i)) 0
      (by rw [filled_fresh]; exact holds_occupied _ _ _)
    rw [htake] at hdrop
    refine ⟨i,hi,hfails,dropped (filled (freshSlots values.length) 0 (values.take i)) 0 i,?_,?_⟩
    · unfold sortWith
      rw [hcopies]
      simp only [Option.bind_eq_bind, Option.bind_some, hdrop]
      rfl
    · intro j v
      by_cases hj : j < i
      · simp [dropped, hj]
      have hslot : dropped (filled (freshSlots values.length) 0 (values.take i)) 0 i j =
          freshSlots values.length j := by
        simp only [dropped, filled, Nat.zero_le, Nat.zero_add, hj, if_true]
        rw [if_neg (by simp), Nat.sub_zero, List.getElem?_eq_none (by omega)]
        rfl
      rw [hslot, freshSlots]
      split_ifs <;> simp

/-- What `malloc` promises about a block it returns while an array of `bytes` bytes is live at
`address`: both lie in one address space and do not overlap. -/
structure DisjointBlocks (malloc : Malloc) (address bytes : Nat) : Prop where
  array : address + bytes ≤ 2 ^ 64
  fresh : ∀ size raw, malloc size = some raw →
    raw + size ≤ 2 ^ 64 ∧ (raw + size ≤ address ∨ address + bytes ≤ raw)

structure SortAdmits (malloc : Malloc) (copies : Nat → Bool) (address count : Nat)
    (type : SortType α) (limit : Nat) : Prop where
  shape : type.size ≠ 0 ∧ alignmentValid type.align = true
  traits : (type.hasCompare && type.hasCopy && type.hasMove && type.hasDestroy) = true
  aligned : address ≠ 0 ∧ address % type.align = 0
  room : ∃ stride bytes block, sequenceStride type.size type.align = .ok stride ∧
    sequenceBytes count stride = .ok bytes ∧ bytes ≤ limit ∧
    sequenceAllocate malloc count stride type.align = .ok block
  copied : ∀ i < count, copies i = true

/-- The array was sorted in place: it holds the one stable sort of its values and the scratch
array nothing. If anything moved, each slot of the array lost its first value by a destroy, and
from then on every value that came to a slot of either array was moved out of it and destroyed in
it, once each, until the last one that came to a slot of the array stayed. -/
structure SortedInPlace (compare : α → α → Ordering) (values : List α) (base : Slots α)
    (r : SortResult α) : Prop where
  sorted : ∃ out, StablySorts (sortLe compare) values out ∧
    (∀ other, StablySorts (sortLe compare) values other → other = out) ∧
    ∀ i, (r.base i).value = (out[i]?).elim (base i).value .live
  scratch : ∀ i v, (r.scratch i).value ≠ .live v
  still : values.length < 2 → r.base = base
  moves : 2 ≤ values.length → ∃ k k', ∀ i < values.length,
    (r.base i).history = (base i).history ++ [.destroy] ++ slotCycles k ++ [.construct] ∧
      (r.scratch i).history = slotCycles k'

section

variable (compare : α → α → Ordering)

theorem stablySorts_short (h : values.length < 2) : StablySorts (sortLe compare) values values := by
  refine ⟨.refl _,?_⟩
  match values, h with
  | [], _ => exact .nil
  | [v], _ => exact List.pairwise_singleton _ _

theorem sortedInPlace_short [Std.TransCmp compare] (hbase : Holds base 0 values)
    (h : values.length < 2) : SortedInPlace compare values base ⟨.ok, base, noSlots⟩ := by
  refine ⟨⟨values,stablySorts_short compare h,fun other hother =>
    hother.unique (sortLe_total compare) (stablySorts_short compare h),fun i => ?_⟩,
    fun i v => by simp [noSlots],fun _ => rfl,fun hge => by omega⟩
  cases hi : values[i]? with
  | none => rfl
  | some v => simpa using hbase i v hi

theorem sortedInPlace_of_stablySorts [Std.TransCmp compare] {values out : List α}
    {k k' : Nat} (hmany : 2 ≤ values.length) (hout : StablySorts (sortLe compare) values out) :
    SortedInPlace compare values base
      ⟨.ok, occupied (dropped base 0 values.length) k out,
        emptied (freshSlots values.length) k' values.length⟩ := by
  have hlen := hout.length
  refine ⟨⟨out,hout,fun other hother => hother.unique (sortLe_total compare) hout,fun i => ?_⟩,
    fun i v => ?_,fun hlt => by omega,fun _ => ⟨k,k',fun i hi => ?_⟩⟩
  · by_cases hi : i < out.length
    · simp [occupied, hi]
    · simp [occupied, hi, dropped, ← hlen]
  · by_cases hi : i < values.length <;> simp [emptied, hi, freshSlots]
  · simp [occupied, emptied, dropped, freshSlots, hi, hlen]

end

theorem count_le_of_allocated {malloc : Malloc} {address count stride alignment block : Nat}
    (hstride : 0 < stride) (hblocks : DisjointBlocks malloc address (count * stride))
    (hblock : sequenceAllocate malloc count stride alignment = .ok block) : count ≤ 2 ^ 63 := by
  rcases Nat.eq_zero_or_pos count with rfl | hpos
  · exact Nat.zero_le _
  have hle := Nat.le_mul_of_pos_right count hstride
  obtain ⟨size,raw,hsize,hraw⟩ := sequenceAllocate_ok hblock (Nat.mul_pos hpos hstride)
  have harray := hblocks.array
  obtain ⟨hend,hapart⟩ := hblocks.fresh size raw hraw
  omega

/-- The sort of any array, under any failures of `malloc` and of the copies. -/
theorem stableSort_sorts (type : SortType α) [Std.TransCmp type.compare] (malloc : Malloc)
    (copies : Nat → Bool) (address limit : Nat) (values : List α) (base : Slots α)
    (hbase : Holds base 0 values)
    (hblocks : ∀ stride, sequenceStride type.size type.align = .ok stride →
      DisjointBlocks malloc address (values.length * stride)) :
    ∃ r, stableSort malloc copies address base values.length (some type) limit = some r ∧
      (r.status = .ok → SortedInPlace type.compare values base r) ∧
      (r.status ≠ .ok → r.base = base ∧ ∀ i v, (r.scratch i).value ≠ .live v) ∧
      (SortAdmits malloc copies address values.length type limit → r.status = .ok) := by
  -- a call that is refused before it touches anything
  have hrefused (status) (hstatus : status ≠ .ok)
      (hadmits) :
      ∃ r, sortReturns status base = some r ∧
        (r.status = .ok → SortedInPlace type.compare values base r) ∧
        (r.status ≠ .ok → r.base = base ∧ ∀ i v, (r.scratch i).value ≠ .live v) ∧
        (SortAdmits malloc copies address values.length type limit → r.status = .ok) :=
    ⟨_,rfl,fun h => absurd h hstatus,fun _ => ⟨rfl,fun i v => by simp [noSlots]⟩,
      fun h => absurd h hadmits⟩
  have hshort (h) :
      ∃ r, sortReturns .ok base = some r ∧
        (r.status = .ok → SortedInPlace type.compare values base r) ∧
        (r.status ≠ .ok → r.base = base ∧ ∀ i v, (r.scratch i).value ≠ .live v) ∧
        (SortAdmits malloc copies address values.length type limit → r.status = .ok) :=
    ⟨_,rfl,fun _ => sortedInPlace_short type.compare hbase h,fun h => absurd rfl h,fun _ => rfl⟩
  unfold stableSort
  dsimp only
  split
  · rename_i hbad
    exact hrefused _ (by decide) fun h => by simp [h.shape.1, h.shape.2] at hbad
  split
  · rename_i hbad
    exact hrefused _ (by decide) fun h => by simp [h.traits] at hbad
  split
  · rename_i hzero
    exact hshort (by rw [beq_iff_eq.1 hzero]; decide)
  split
  · rename_i hnull
    exact hrefused _ (by decide) fun h => h.aligned.1 (by simpa using hnull)
  split
  · rename_i hodd
    exact hrefused _ (by decide) fun h => by simp [h.aligned.2] at hodd
  split
  · rename_i hone
    exact hshort (by rw [beq_iff_eq.1 hone]; decide)
  rename_i hzero _ _ hone
  have hmany : 2 ≤ values.length := by
    simp only [beq_iff_eq] at hzero hone
    omega
  cases hstride : sequenceStride type.size type.align with
  | error status =>
    refine hrefused _ (sequenceStride_error hstride) fun h => ?_
    obtain ⟨_,_,_,hok,-⟩ := h.room
    rw [hstride] at hok
    cases hok
  | ok stride =>
  dsimp only
  cases hbytes : sequenceBytes values.length stride with
  | error status =>
    refine hrefused _ (sequenceBytes_error hbytes) fun h => ?_
    obtain ⟨_,_,_,hok,hbytes',-⟩ := h.room
    obtain rfl := Except.ok.inj (hstride.symm.trans hok)
    rw [hbytes] at hbytes'
    cases hbytes'
  | ok bytes =>
  dsimp only
  split
  · refine hrefused _ (by decide) fun h => ?_
    obtain ⟨_,_,_,hok,hbytes',hle,-⟩ := h.room
    obtain rfl := Except.ok.inj (hstride.symm.trans hok)
    obtain rfl := Except.ok.inj (hbytes.symm.trans hbytes')
    omega
  cases hblock : sequenceAllocate malloc values.length stride type.align with
  | error status =>
    refine hrefused _ (sequenceAllocate_error hblock) fun h => ?_
    obtain ⟨_,_,_,hok,-,-,hblock'⟩ := h.room
    obtain rfl := Except.ok.inj (hstride.symm.trans hok)
    rw [hblock] at hblock'
    cases hblock'
  | ok block =>
  have hcount := count_le_of_allocated (stride_pos hstride) (hblocks stride hstride) hblock
  rcases sortWith_spec type.compare copies hbase hcount with
    ⟨-,out,k,k',heq,hout⟩ | ⟨i,hi,hfails,scratch,heq,hscratch⟩
  · exact ⟨_,heq,fun _ => sortedInPlace_of_stablySorts type.compare hmany hout,
      fun h => absurd rfl h,fun _ => rfl⟩
  · refine ⟨_,heq,fun h => (by cases h),fun _ => ⟨rfl,hscratch⟩,fun h => ?_⟩
    rw [h.copied i hi] at hfails
    cases hfails

def pairType : SortType (Nat × Nat) :=
  ⟨16, 8, true, true, true, true, compareOn Prod.fst⟩

instance : Std.TransCmp pairType.compare := inferInstanceAs (Std.TransCmp (compareOn Prod.fst))

def oneBlock : Malloc := fun size => if size ≤ 100 then some 4096 else none

theorem stableSort_sorts_pairs :
    SortAdmits oneBlock (fun _ => true) 1024 3 pairType 48 ∧
    ∃ r, stableSort oneBlock (fun _ => true) 1024
        (fun i => ([(2, 0), (1, 1), (2, 2)][i]?).elim ⟨.outside, []⟩ fun v => ⟨.live v, []⟩) 3
        (some pairType) 48 = some r ∧
      SortedInPlace pairType.compare [(2, 0), (1, 1), (2, 2)]
        (fun i => ([(2, 0), (1, 1), (2, 2)][i]?).elim ⟨.outside, []⟩ fun v => ⟨.live v, []⟩) r := by
  have hadmits : SortAdmits oneBlock (fun _ => true) 1024 3 pairType 48 :=
    ⟨by decide,rfl,by decide,⟨16,48,4104,by decide,by decide,by decide,by decide⟩,fun _ _ => rfl⟩
  obtain ⟨r,heq,hsorted,-,hok⟩ := stableSort_sorts pairType oneBlock (fun _ => true) 1024 48
    [(2,0), (1,1), (2,2)]
    (fun i => ([(2,0), (1,1), (2,2)][i]?).elim ⟨.outside,[]⟩ fun v => ⟨.live v,[]⟩)
    (fun k v hv => by simp only [Nat.zero_add, hv]; rfl)
    (fun stride hstride => by
      obtain rfl : 16 = stride := Except.ok.inj hstride
      refine ⟨by decide,fun size raw hraw => ?_⟩
      unfold oneBlock at hraw
      split at hraw
      · cases hraw
        simp only [List.length_cons, List.length_nil]
        omega
      · cases hraw)
  exact ⟨hadmits,r,heq,hsorted (hok hadmits)⟩

end Salts.Cstl
