import Mathlib.Data.Nat.Bitwise

/-!
What the containers share: status codes, `size_t` arithmetic, and the aligned allocation of
`sequence_internal.h` over a `malloc` that may fail at any call.
-/

namespace Salts

def sizeMax : Nat := 2 ^ 64 - 1

namespace Cstl

inductive StlStatus
  | ok
  | invalidArgument
  | outOfMemory
  | capacityExceeded
  | empty
  | notFound
  | typeMismatch
  | traitMissing
  deriving DecidableEq

/-- The value a `size_t` holds after an arithmetic result is stored in it. -/
def wrap (n : Nat) : Nat := n % 2 ^ 64

/-- `malloc` as one call sees it: the address it returns for a size, or NULL. -/
abbrev Malloc := Nat → Option Nat

def alignmentValid (alignment : Nat) : Bool :=
  alignment != 0 && (alignment &&& (alignment - 1)) == 0

def sequenceStride (elemSize elemAlign : Nat) : Except StlStatus Nat :=
  if elemSize == 0 || !alignmentValid elemAlign then .error .invalidArgument
  else if elemSize > sizeMax - (elemAlign - 1) then .error .capacityExceeded
  else .ok ((elemSize + (elemAlign - 1)) &&& (sizeMax ^^^ (elemAlign - 1)))

def sequenceBytes (count stride : Nat) : Except StlStatus Nat :=
  if count != 0 && decide (stride > sizeMax / count) then .error .capacityExceeded
  else .ok (wrap (count * stride))

/-- The aligned address of `count * stride` fresh bytes, or 0 (NULL) for an empty block. -/
def sequenceAllocate (malloc : Malloc) (count stride alignment : Nat) : Except StlStatus Nat := do
  if !alignmentValid alignment then throw .invalidArgument
  let bytes ← sequenceBytes count stride
  if bytes == 0 then return 0
  if alignment - 1 > sizeMax - 8 then throw .capacityExceeded
  let overhead := 8 + alignment - 1
  if bytes > sizeMax - overhead then throw .capacityExceeded
  match malloc (bytes + overhead) with
  | none => throw .outOfMemory
  | some raw =>
    if raw + 8 > sizeMax - (alignment - 1) then throw .capacityExceeded
    return (raw + 8 + alignment - 1) &&& (sizeMax ^^^ (alignment - 1))

variable {elemSize elemAlign stride count alignment : Nat} {status : StlStatus}

theorem alignmentValid_of_stride (h : sequenceStride elemSize elemAlign = .ok stride) :
    alignmentValid elemAlign = true := by
  unfold sequenceStride at h
  split at h
  · cases h
  · simp_all

theorem stride_pos (h : sequenceStride elemSize elemAlign = .ok stride) : 0 < stride := by
  unfold sequenceStride at h
  split at h
  · cases h
  split at h
  · cases h
  rename_i hvalid hfits
  obtain ⟨hsize,hzero,hpow⟩ : elemSize ≠ 0 ∧ elemAlign ≠ 0 ∧ elemAlign &&& (elemAlign-1) = 0 := by
    simpa [alignmentValid] using hvalid
  obtain ⟨k,rfl⟩ := (Nat.and_sub_one_eq_zero_iff_isPowerOfTwo hzero).1 hpow
  cases h
  have hlt : elemSize+(2 ^ k-1) < 2 ^ 64 := by
    unfold sizeMax at hfits
    omega
  -- the rounded size has a bit at or above the alignment, and clearing the low bits keeps it
  obtain ⟨i,hki,hbit⟩ :=
    Nat.exists_ge_and_testBit_of_ge_two_pow (x := elemSize+(2 ^ k-1)) (n := k) (by omega)
  have hi : i < 64 := by
    by_contra hge
    rw [Nat.testBit_lt_two_pow (lt_of_lt_of_le hlt
      (Nat.pow_le_pow_right (by decide) (Nat.le_of_not_lt hge)))] at hbit
    cases hbit
  have hkept : ((elemSize+(2 ^ k-1)) &&& (sizeMax ^^^ (2 ^ k-1))).testBit i = true := by
    rw [Nat.testBit_and, Nat.testBit_xor, hbit, show sizeMax = 2 ^ 64-1 from rfl,
      Nat.testBit_two_pow_sub_one]
    simp [hi, hki]
  exact Nat.pos_of_ne_zero fun h0 => by simp [h0] at hkept

theorem sequenceBytes_ok {bytes : Nat} (h : sequenceBytes count stride = .ok bytes) :
    bytes = count * stride ∧ count * stride ≤ sizeMax := by
  unfold sequenceBytes at h
  split at h
  · cases h
  rename_i hfits
  have hle : count * stride ≤ sizeMax := by
    by_cases hcount : count = 0
    · simp [hcount]
    · have := Nat.mul_le_mul_left count (by simpa [hcount] using hfits)
      exact this.trans (Nat.mul_div_le _ _)
  refine ⟨?_,hle⟩
  cases h
  exact Nat.mod_eq_of_lt (by unfold sizeMax at hle; omega)

theorem sequenceStride_error (h : sequenceStride elemSize elemAlign = .error status) :
    status ≠ .ok := by
  unfold sequenceStride at h
  split at h
  · cases h
    decide
  split at h
  · cases h
    decide
  · cases h

theorem sequenceBytes_error (h : sequenceBytes count stride = .error status) : status ≠ .ok := by
  unfold sequenceBytes at h
  split at h
  · cases h
    decide
  · cases h

variable {malloc : Malloc}

theorem sequenceAllocate_error
    (h : sequenceAllocate malloc count stride alignment = .error status) : status ≠ .ok := by
  unfold sequenceAllocate at h
  simp only [bind, Except.bind, throw, throwThe, MonadExceptOf.throw] at h
  split at h
  · cases h
    decide
  split at h
  · cases h
    exact sequenceBytes_error ‹_›
  split at h
  · cases h
  split at h
  · cases h
    decide
  split at h
  · cases h
    decide
  split at h
  · cases h
    decide
  split at h <;> cases h
  decide

theorem sequenceAllocate_ok {address : Nat}
    (h : sequenceAllocate malloc count stride alignment = .ok address) (hpos : 0 < count * stride) :
    ∃ size raw, count * stride ≤ size ∧ malloc size = some raw := by
  unfold sequenceAllocate at h
  cases hbytes : sequenceBytes count stride with
  | error e =>
    simp only [hbytes, bind, Except.bind] at h
    split at h <;> cases h
  | ok bytes =>
    obtain ⟨rfl,-⟩ := sequenceBytes_ok hbytes
    cases hraw : malloc (count * stride + (8 + alignment - 1)) with
    | some raw => exact ⟨_,raw,Nat.le_add_right _ _,hraw⟩
    | none =>
      have hne : (count * stride == 0) = false := by simpa using hpos.ne'
      simp only [hbytes, bind, Except.bind, hne, hraw, throw, throwThe, MonadExceptOf.throw] at h
      split at h
      · cases h
      split at h
      · rename_i hzero
        cases hzero
      split at h
      · cases h
      split at h <;> cases h

/-! ### Storage of the heap and the deque -/

structure SequenceLayout where
  elementLimit : Nat
  elemStride : Nat
  elemAlign : Nat

def sequenceMinCapacity : Nat := 8

/-- The loop of `next_capacity`; a capacity above zero reaches `minimum` in `minimum` turns. -/
def doubleCapacity (limit minimum : Nat) : Nat → Nat → Nat
  | 0, capacity => capacity
  | turns + 1, capacity =>
    if minimum ≤ capacity then capacity
    else if limit - capacity < capacity then limit
    else doubleCapacity limit minimum turns (capacity * 2)

def nextCapacity (layout : SequenceLayout) (capacity minimum : Nat) : Except StlStatus Nat :=
  if layout.elementLimit < minimum then .error .capacityExceeded
  else
    let start := if capacity = 0 then sequenceMinCapacity else capacity
    .ok (doubleCapacity layout.elementLimit minimum minimum (min start layout.elementLimit))

/-- The capacity after `grow_to`, whose only effects are the new block and the moved elements. -/
def grownCapacity (malloc : Malloc) (layout : SequenceLayout) (capacity minimum : Nat) :
    Except StlStatus Nat :=
  if minimum ≤ capacity then .ok capacity
  else
    match nextCapacity layout capacity minimum with
    | .error status => .error status
    | .ok grown =>
      match sequenceAllocate malloc grown layout.elemStride layout.elemAlign with
      | .error status => .error status
      | .ok _ => .ok grown

/-- `prepare_copy`: room for one value, and its copy constructor, which may fail. -/
def prepareCopy (malloc : Malloc) (copies : Bool) (layout : SequenceLayout) : StlStatus :=
  match sequenceAllocate malloc 1 layout.elemStride layout.elemAlign with
  | .error status => status
  | .ok _ => if copies then .ok else .outOfMemory

def Malloc.Fits (malloc : Malloc) : Prop := ∀ size raw, malloc size = some raw → size < 2 ^ 63

namespace SequenceLayout

/-- What `sequence_stride` has checked. -/
structure Sound (layout : SequenceLayout) : Prop where
  stride : 0 < layout.elemStride
  align : alignmentValid layout.elemAlign = true

/-- No block for `count` elements with its header: it does not fit a `size_t`, or `malloc` returns
none that ends inside the address space. -/
def Unserved (layout : SequenceLayout) (malloc : Malloc) (count : Nat) : Prop :=
  let size := count * layout.elemStride + (8 + layout.elemAlign - 1)
  sizeMax < size ∨ ∀ raw, malloc size = some raw → sizeMax < raw + 8 + (layout.elemAlign - 1)

def Uncopied (layout : SequenceLayout) (malloc : Malloc) (copies : Bool) : Prop :=
  copies = false ∨ layout.Unserved malloc 1

/-- Storage that has to grow for `minimum` elements and may not, or cannot. -/
def Ungrown (layout : SequenceLayout) (malloc : Malloc) (capacity minimum : Nat) : Prop :=
  capacity < minimum ∧ (layout.elementLimit < minimum ∨
    ∃ count, minimum ≤ count ∧ count ≤ layout.elementLimit ∧ layout.Unserved malloc count)

end SequenceLayout

variable {malloc : Malloc} {layout : SequenceLayout} {capacity minimum grown : Nat}
  {status : StlStatus}

theorem le_doubleCapacity {limit : Nat} (hmin : minimum ≤ limit) :
    ∀ {turns capacity}, 0 < capacity → minimum ≤ capacity + turns →
      minimum ≤ doubleCapacity limit minimum turns capacity := by
  intro turns
  induction turns with
  | zero =>
    intro capacity _ hturns
    exact hturns
  | succ turns ih =>
    intro capacity hpos hturns
    unfold doubleCapacity
    split
    · assumption
    split
    · exact hmin
    · apply ih <;> omega

theorem doubleCapacity_le {limit turns : Nat} (hle : capacity ≤ limit) :
    doubleCapacity limit minimum turns capacity ≤ limit := by
  induction turns generalizing capacity with
  | zero => exact hle
  | succ turns ih =>
    unfold doubleCapacity
    split_ifs
    · exact hle
    · exact le_rfl
    · exact ih (by omega)

theorem nextCapacity_ok (h : nextCapacity layout capacity minimum = .ok grown)
    (hpos : 0 < minimum) : minimum ≤ grown ∧ grown ≤ layout.elementLimit := by
  unfold nextCapacity at h
  split at h
  · cases h
  cases h
  refine ⟨le_doubleCapacity (by omega) ?_ (by omega),doubleCapacity_le (Nat.min_le_right _ _)⟩
  unfold sequenceMinCapacity
  split <;> omega

theorem grownCapacity_ok (h : grownCapacity malloc layout capacity minimum = .ok grown)
    (hstride : 0 < layout.elemStride) (hmalloc : malloc.Fits) (hsmall : capacity < 2 ^ 63) :
    minimum ≤ grown ∧ capacity ≤ grown ∧ grown < 2 ^ 63 ∧ (minimum ≤ capacity → grown = capacity) := by
  unfold grownCapacity at h
  split at h
  · obtain rfl := Except.ok.inj h
    exact ⟨‹_›,le_rfl,hsmall,fun _ => rfl⟩
  split at h
  · cases h
  split at h
  · cases h
  rename_i _ next hnext _ _ halloc
  obtain rfl := Except.ok.inj h
  have hle : minimum ≤ next := (nextCapacity_ok hnext (by omega)).1
  have hroom : next ≤ next * layout.elemStride := Nat.le_mul_of_pos_right _ hstride
  obtain ⟨size,raw,hsize,hraw⟩ := sequenceAllocate_ok halloc (by omega)
  have := hmalloc size raw hraw
  exact ⟨hle,by omega,by omega,fun _ => by omega⟩

theorem sequenceAllocate_unserved (hlayout : layout.Sound)
    (h : sequenceAllocate malloc count layout.elemStride layout.elemAlign = .error status) :
    layout.Unserved malloc count := by
  unfold sequenceAllocate at h
  simp only [bind, Except.bind, throw, throwThe, MonadExceptOf.throw, hlayout.align,
    Bool.not_true, Bool.false_eq_true, if_false] at h
  unfold SequenceLayout.Unserved
  dsimp only
  split at h
  · rename_i hbytes
    unfold sequenceBytes at hbytes
    split at hbytes
    · rename_i hlarge
      simp only [bne_iff_ne, Bool.and_eq_true, decide_eq_true_eq] at hlarge
      have := Nat.lt_mul_of_div_lt hlarge.2 (by omega)
      rw [Nat.mul_comm] at this
      omega
    · cases hbytes
  rename_i bytes hbytes
  obtain ⟨rfl,-⟩ := sequenceBytes_ok hbytes
  split at h
  · cases h
  split at h
  · omega
  split at h
  · omega
  split at h
  · rename_i hnone
    exact .inr fun raw hraw => by rw [hnone] at hraw; cases hraw
  rename_i raw hsome
  split at h
  · refine .inr fun raw' hraw => ?_
    rw [hsome] at hraw
    cases hraw
    omega
  · cases h

theorem grownCapacity_error (hlayout : layout.Sound)
    (h : grownCapacity malloc layout capacity minimum = .error status) :
    status ≠ .ok ∧ layout.Ungrown malloc capacity minimum := by
  unfold grownCapacity at h
  split at h
  · cases h
  rename_i hmore
  refine ⟨?_,Nat.lt_of_not_le hmore,?_⟩
  all_goals split at h
  · rename_i hnext
    obtain rfl := Except.error.inj h
    unfold nextCapacity at hnext
    split at hnext <;> cases hnext
    decide
  · split at h
    · obtain rfl := Except.error.inj h
      exact sequenceAllocate_error ‹_›
    · cases h
  · rename_i hnext
    unfold nextCapacity at hnext
    split at hnext
    · exact .inl ‹_›
    · cases hnext
  · rename_i next hnext
    obtain ⟨hle,hlimit⟩ := nextCapacity_ok hnext (by omega)
    split at h
    · exact .inr ⟨next,hle,hlimit,sequenceAllocate_unserved hlayout ‹_›⟩
    · cases h

theorem prepareCopy_error {copies : Bool} (hlayout : layout.Sound)
    (h : prepareCopy malloc copies layout ≠ .ok) : layout.Uncopied malloc copies := by
  unfold prepareCopy at h
  split at h
  · exact .inr (sequenceAllocate_unserved hlayout ‹_›)
  · cases copies with
    | false => exact .inl rfl
    | true => exact absurd rfl h

end Cstl

end Salts
