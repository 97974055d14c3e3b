import Salts.PluginRegistry

/-!
Everything a thread of a plugin registry can do in one move, the bits of a lease mask, and the
values a generation takes.
-/

namespace Salts.Plugin

open ThreadPool PluginSlot
open Bool (and_eq_true not_eq_false not_eq_true' or_eq_true)
open Finset (mem_filter mem_range range)

/-- The generation behind `n` reuses: zero is skipped, so the values repeat after `2 ^ 32 - 1`. -/
def genOf (n : Nat) : Nat := 1 + n % (2 ^ 32 - 1)

theorem nextGeneration_genOf (n : Nat) : nextGeneration (genOf n) = genOf (n + 1) := by
  unfold nextGeneration genOf
  dsimp only
  split_ifs <;> omega

theorem genOf_ne {m n : Nat} (hlt : m < n) (hnear : n - m < 2 ^ 32 - 1) : genOf m ≠ genOf n := by
  unfold genOf
  omega

theorem genOf_zero : genOf 0 = 1 := by
  unfold genOf
  omega

theorem genOf_ne_zero (n : Nat) : genOf n ≠ 0 := by
  unfold genOf
  omega

variable {k j i : Nat}

theorem getLsbD_leaseBit (hk : k < 64) (j : Nat) : (leaseBit k).getLsbD j = decide (j = k) := by
  simp only [leaseBit]
  by_cases hj : j = k
  · simp [hj, hk]
  have hsub : j < k ∨ j-k ≠ 0 := by omega
  rcases hsub with hlt | hne
  · simp [hj, hlt]
  · simp [hj, hne]

theorem leaseActive_eq (mask : BitVec 64) (hk : k < 64) : leaseActive mask k = mask.getLsbD k := by
  cases hm : mask.getLsbD k
  · have hzero : mask &&& leaseBit k = 0#64 := by
      apply BitVec.eq_of_getLsbD_eq
      intro j _
      rw [BitVec.getLsbD_and, getLsbD_leaseBit hk]
      by_cases hj : j = k
      · simp [hj, hm]
      · simp [hj]
    simp [leaseActive, hzero]
  · have hne : mask &&& leaseBit k ≠ 0#64 := by
      intro h0
      have := congrArg (fun b => b.getLsbD k) h0
      simp [getLsbD_leaseBit hk, hm] at this
    simp [leaseActive, hne]

theorem leaseActive_acquire (mask : BitVec 64) (hj : j < 64) (hk : k < 64) :
    leaseActive (mask ||| leaseBit k) j = (leaseActive mask j || decide (j = k)) := by
  rw [leaseActive_eq _ hj, leaseActive_eq _ hj, BitVec.getLsbD_or, getLsbD_leaseBit hk]

theorem leaseActive_release (mask : BitVec 64) (hj : j < 64) (hk : k < 64) :
    leaseActive (mask &&& ~~~leaseBit k) j = (leaseActive mask j && decide (j ≠ k)) := by
  rw [leaseActive_eq _ hj, leaseActive_eq _ hj, BitVec.getLsbD_and, BitVec.getLsbD_not,
    getLsbD_leaseBit hk]
  simp [hj]

def PluginSlot.leaseCount (slot : PluginSlot) : Nat :=
  ((range maxLeasesPerPlugin).filter fun k => leaseActive slot.leaseActiveMask k = true).card

namespace PluginSlot

variable {slot : PluginSlot} {k : Nat}

theorem leaseCount_acquire (hk : k < 64) (hfree : leaseActive slot.leaseActiveMask k = false) :
    (slot.acquire k).leaseCount = slot.leaseCount + 1 := by
  unfold leaseCount
  have hset : (range maxLeasesPerPlugin).filter (fun j =>
      leaseActive (slot.acquire k).leaseActiveMask j = true) =
      insert k ((range maxLeasesPerPlugin).filter fun j =>
        leaseActive slot.leaseActiveMask j = true) := by
    ext j
    rw [Finset.mem_insert, mem_filter, mem_filter, mem_range]
    show j < 64 ∧ leaseActive (slot.leaseActiveMask ||| leaseBit k) j = true ↔ _
    constructor
    · rintro ⟨hj,ha⟩
      rw [leaseActive_acquire _ hj hk] at ha
      simp only [or_eq_true, decide_eq_true_eq] at ha
      tauto
    · rintro (rfl | ⟨hj,ha⟩)
      · exact ⟨hk,by rw [leaseActive_acquire _ hk hk]; simp⟩
      · exact ⟨hj,by rw [leaseActive_acquire _ hj hk, ha]; rfl⟩
  rw [hset]
  simp [hfree]

theorem leaseCount_release (hk : k < 64) (hact : leaseActive slot.leaseActiveMask k = true) :
    (slot.release k).leaseCount + 1 = slot.leaseCount := by
  unfold leaseCount
  have hmem : k ∈ (range maxLeasesPerPlugin).filter fun j =>
      leaseActive slot.leaseActiveMask j = true := by
    simp [maxLeasesPerPlugin, hk, hact]
  have hset : (range maxLeasesPerPlugin).filter (fun j =>
      leaseActive (slot.release k).leaseActiveMask j = true) =
      ((range maxLeasesPerPlugin).filter fun j =>
        leaseActive slot.leaseActiveMask j = true).erase k := by
    ext j
    rw [Finset.mem_erase, mem_filter, mem_filter, mem_range]
    show j < 64 ∧ leaseActive (slot.leaseActiveMask &&& ~~~leaseBit k) j = true ↔ _
    constructor
    · rintro ⟨hj,ha⟩
      rw [leaseActive_release _ hj hk] at ha
      simp only [and_eq_true, decide_eq_true_eq] at ha
      tauto
    · rintro ⟨hne,hj,ha⟩
      exact ⟨hj,by rw [leaseActive_release _ hj hk, ha]; simp [hne]⟩
  rw [hset, Finset.card_erase_add_one hmem]

theorem leaseCount_zero (h : slot.leaseActiveMask = 0#64) : slot.leaseCount = 0 := by
  simp [leaseCount, leaseActive, h]

end PluginSlot

namespace RegPoint

def ended : RegPoint → Bool
  | .loaded _ => true
  | .acquired _ => true
  | .polled _ => true
  | .returned _ => true
  | _ => false

def reserving : RegPoint → Nat
  | .loading => 1
  | .publish _ => 1
  | .loadReject _ => 1
  | .loadRelease _ => 1
  | _ => 0

def callsAt (i : Nat) : RegPoint → Nat
  | .inCall j _ => if j = i then 1 else 0
  | _ => 0

def destroysAt (i : Nat) : RegPoint → Nat
  | .inDestroy j _ => if j = i then 1 else 0
  | _ => 0

def closesAt (i : Nat) : RegPoint → Nat
  | .closing j _ => if j = i then 1 else 0
  | .clearing j _ => if j = i then 1 else 0
  | .closeFailed j _ _ => if j = i then 1 else 0
  | _ => 0

def unloadsAt (i : Nat) (p : RegPoint) : Nat := p.destroysAt i + p.closesAt i

def sweeps : RegPoint → Nat
  | .sweep _ => 1
  | .inDestroy _ .sweep => 1
  | .closing _ .sweep => 1
  | .clearing _ .sweep => 1
  | .closeFailed _ .sweep _ => 1
  | _ => 0

end RegPoint

inductive Begins (r : Registry) : RegPoint → Nat → Closer → Prop
  | unload (ref : PluginRef) {i : Nat} (hd : r.destroying = false)
      (hu : (r.slot i).unloading = false) (hl : (r.slot i).activeLeases = 0)
      (hc : (r.slot i).callbacksInflight = 0) : Begins r (.unload ref) i .unload
  | sweep (i : Nat) : Begins r (.sweep i) i .sweep

inductive RegMove (r : Registry) : RegPoint → Registry → RegPoint → Prop
  | refuse (p q : RegPoint) (hp : p.entry = true) (hq : q.ended = true) : RegMove r p r q
  -- load
  | reserve (validPath : Bool) (hd : r.destroying = false)
      (hroom : r.count + r.loadsInflight < r.capacity) :
      RegMove r (.load validPath) { r with loadsInflight := r.loadsInflight + 1 } .loading
  | opened (m : PluginManifest) (hm : m.validate = .ok) : RegMove r .loading r (.publish m)
  | notOpened (status : PluginStatus) : RegMove r .loading r (.loadRelease status)
  | unusable (status : PluginStatus) : RegMove r .loading r (.loadReject status)
  | unpublished (m : PluginManifest) (status : PluginStatus)
      (hfull : status = .capacityExceeded → ∀ i < r.capacity, (r.slot i).occupied = true) :
      RegMove r (.publish m) r (.loadReject status)
  | publish (m : PluginManifest) (equal : List Nat) (i : Nat) (hi : i < r.capacity)
      (hfree : (r.slot i).occupied = false) (hd : r.destroying = false)
      (hdup : ∀ j < r.capacity, r.duplicates m equal j = false) :
      RegMove r (.publish m) (r.publishAt m i) (.loaded (r.refOf i))
  | rejected (status result : PluginStatus) :
      RegMove r (.loadReject status) r (.loadRelease result)
  | released (status : PluginStatus) :
      RegMove r (.loadRelease status) { r with loadsInflight := r.loadsInflight - 1 }
        (.returned status)
  -- calls on a slot
  | sets (p q : RegPoint) (i : Nat) (state : Option PluginLifecycle) (hp : p.entry = true)
      (hq : q.ended = true) (hd : r.destroying = false) :
      RegMove r p (r.put i { r.slot i with state := state }) q
  | calls (p : RegPoint) (i : Nat) (state : Option PluginLifecycle) (k : PluginCallback)
      (hp : p.entry = true) (ho : (r.slot i).occupied = true) (hd : r.destroying = false)
      (hu : (r.slot i).unloading = false) :
      RegMove r p (r.put i ((r.slot i).call state)) (.inCall i k)
  | back (i : Nat) (k : PluginCallback) (state : Option PluginLifecycle) (failure : PluginStatus)
      (q : RegPoint) (hq : q.ended = true) :
      RegMove r (.inCall i k) (r.put i ((r.slot i).back state failure)) q
  | acquire (i k : Nat) (ho : (r.slot i).occupied = true) (hd : r.destroying = false)
      (hu : (r.slot i).unloading = false) (hk : k < 64)
      (hfree : leaseActive (r.slot i).leaseActiveMask k = false) :
      RegMove r (.acquire (r.refOf i))
        { r.put i ((r.slot i).acquire k) with
          granted := r.granted ++
            [⟨r.leaseOf i k, i, k, (r.slot i).clears, (r.slot i).turns k⟩] }
        (.acquired (r.leaseOf i k))
  | release (i k : Nat) (ho : (r.slot i).occupied = true) (hk : k < 64)
      (hact : leaseActive (r.slot i).leaseActiveMask k = true) :
      RegMove r (.release (r.leaseOf i k)) (r.put i ((r.slot i).release k)) (.returned .ok)
  -- the end of a slot
  | beginsDestroy (p : RegPoint) (i : Nat) (c : Closer) (h : Begins r p i c)
      (ho : (r.slot i).occupied = true) (hdes : (r.slot i).destroys = true) :
      RegMove r p
        { r.put i (r.slot i).unload with destroys := r.destroys ++ [(r.slot i).serial] }
        (.inDestroy i c)
  | beginsClose (p : RegPoint) (i : Nat) (c : Closer) (h : Begins r p i c)
      (ho : (r.slot i).occupied = true) (hdes : (r.slot i).destroys = false) :
      RegMove r p (r.put i (r.slot i).unload) (.closing i c)
  | destroyed (i : Nat) (c : Closer) :
      RegMove r (.inDestroy i c) (r.put i (r.slot i).destroyed) (.closing i c)
  | closed (i : Nat) (c : Closer) :
      RegMove r (.closing i c) (r.put i { r.slot i with imageOpen := false }) (.clearing i c)
  | unclosed (i : Nat) (c : Closer) (status : PluginStatus) :
      RegMove r (.closing i c) r (.closeFailed i c status)
  | cleared (i : Nat) : RegMove r (.clearing i .unload) (r.clearAt i) (.returned .ok)
  | swept (i : Nat) : RegMove r (.clearing i .sweep) (r.clearAt i) (.sweep (i + 1))
  | unloadFails (i : Nat) (status : PluginStatus) :
      RegMove r (.closeFailed i .unload status) (r.put i { r.slot i with unloading := false })
        (.returned status)
  | sweepFails (i : Nat) (status : PluginStatus) :
      RegMove r (.closeFailed i .sweep status)
        { r.put i { r.slot i with unloading := false } with destroying := false }
        (.returned status)
  -- destroy
  | destroy (hd : r.destroying = false) (hl : r.loadsInflight = 0) (hg : r.gone = false)
      (hfree : ∀ i < r.capacity, (r.slot i).occupied = true → (r.slot i).unloading = false ∧
        (r.slot i).activeLeases = 0 ∧ (r.slot i).callbacksInflight = 0) :
      RegMove r .destroy { r with destroying := true } (.sweep 0)
  | sweepOn (i : Nat) : RegMove r (.sweep i) r (.sweep (i + 1))
  | sweepEnds (i : Nat) : RegMove r (.sweep i) { r with gone := true } (.returned .ok)

namespace Registry

variable {r : Registry} {ref : PluginRef} {i : Nat}

theorem slotForRef_ok (h : r.slotForRef ref = .ok i) :
    i < r.capacity ∧ (r.slot i).occupied = true ∧ ref = r.refOf i := by
  unfold slotForRef at h
  split_ifs at h with h1 h2 h3
  obtain rfl : ref.slot - 1 = i := by simpa using h
  simp only [or_eq_true, not_eq_true', not_or, not_eq_false] at h3
  simp only [PluginRef.valid, not_eq_true', not_eq_false, and_eq_true,
    bne_iff_ne] at h1
  refine ⟨by omega,h3.1,?_⟩
  have hs : ref.slot-1+1 = ref.slot := by omega
  cases ref
  simp_all [refOf]

end Registry

namespace RegMove

open Registry

variable {r : Registry} {p : RegPoint} {m : Move} {ref : PluginRef} {c : RegChoice}

theorem of_withSlot {body : Nat → PluginSlot → Move} (hp : p.entry = true)
    (hbody : ∀ i, r.slotForRef ref = .ok i → r.destroying = false →
      (r.slot i).unloading = false → RegMove r p (body i (r.slot i)).1 (body i (r.slot i)).2) :
    RegMove r p (r.withSlot ref body).1 (r.withSlot ref body).2 := by
  unfold withSlot
  split_ifs
  · exact .refuse p _ hp rfl
  split
  · exact .refuse p _ hp rfl
  rename_i i hi
  split_ifs with hb
  · exact .refuse p _ hp rfl
  · rw [or_eq_true, not_or] at hb
    exact hbody i hi (by simpa using hb.1) (by simpa using hb.2)

theorem of_start (ref : PluginRef) : RegMove r (.start ref) (r.start ref).1 (r.start ref).2 := by
  refine of_withSlot rfl fun i hi hd hu => ?_
  obtain ⟨-,ho,-⟩ := slotForRef_ok hi
  split_ifs
  any_goals exact .refuse _ _ rfl rfl
  · exact .calls _ i _ _ rfl ho hd hu
  · exact .sets _ _ i _ rfl rfl hd

theorem of_acquire (ref : PluginRef) :
    RegMove r (.acquire ref) (r.acquire ref).1 (r.acquire ref).2 := by
  refine of_withSlot rfl fun i hi hd hu => ?_
  obtain ⟨-,ho,rfl⟩ := slotForRef_ok hi
  split_ifs
  · exact .refuse _ _ rfl rfl
  split
  · exact .refuse _ _ rfl rfl
  rename_i k hk
  have hlt := List.mem_range.1 (List.mem_of_find?_eq_some hk)
  have hfree := List.find?_some hk
  exact .acquire i k ho hd hu hlt (by simpa using hfree)

theorem of_release (lease : PluginLease) :
    RegMove r (.release lease) (r.release lease).1 (r.release lease).2 := by
  unfold Registry.release
  split_ifs with h1
  · exact .refuse _ _ rfl rfl
  split
  · exact .refuse _ _ rfl rfl
  rename_i i hi
  obtain ⟨-,ho,href⟩ := slotForRef_ok hi
  dsimp only
  split_ifs with h2 h3
  any_goals exact .refuse _ _ rfl rfl
  simp only [or_eq_true, not_eq_true', bne_iff_ne, not_or, not_eq_false,
    PluginLease.valid, and_eq_true] at h1 h3
  have hlease : lease = r.leaseOf i (lease.slot-1) := by
    have hs : lease.slot-1+1 = lease.slot := by
      omega
    cases lease
    simp_all [leaseOf]
  rw [not_le] at h2
  conv => arg 2; rw [hlease]
  exact .release i _ ho h2 h3.1

theorem of_requestStop (ref : PluginRef) :
    RegMove r (.stop ref) (r.requestStop ref).1 (r.requestStop ref).2 := by
  refine of_withSlot rfl fun i hi hd hu => ?_
  obtain ⟨-,ho,-⟩ := slotForRef_ok hi
  split_ifs
  any_goals exact .refuse _ _ rfl rfl
  · exact .calls _ i _ _ rfl ho hd hu
  · exact .sets _ _ i _ rfl rfl hd

theorem of_pollQuiescent (ref : PluginRef) :
    RegMove r (.poll ref) (r.pollQuiescent ref).1 (r.pollQuiescent ref).2 := by
  refine of_withSlot rfl fun i hi hd hu => ?_
  obtain ⟨-,ho,-⟩ := slotForRef_ok hi
  split_ifs
  any_goals exact .refuse _ _ rfl rfl
  · exact .calls _ i _ _ rfl ho hd hu
  · exact .sets _ _ i _ rfl rfl hd

theorem of_beginUnload {c : Closer} (h : Begins r p i c) (ho : (r.slot i).occupied = true) :
    RegMove r p (r.beginUnload i c).1 (r.beginUnload i c).2 := by
  unfold beginUnload
  dsimp only
  split_ifs with hdes
  · exact .beginsDestroy p i c h ho hdes
  · exact .beginsClose p i c h ho (by simpa using hdes)

theorem of_unload (ref : PluginRef) :
    RegMove r (.unload ref) (r.unload ref).1 (r.unload ref).2 := by
  refine of_withSlot rfl fun i hi hd hu => ?_
  obtain ⟨-,ho,-⟩ := slotForRef_ok hi
  split_ifs with h1 h2
  any_goals exact .refuse _ _ rfl rfl
  · simp only [unused, not_eq_true', not_eq_false, and_eq_true, beq_iff_eq] at h2
    exact of_beginUnload (.unload ref hd hu h2.1 h2.2) ho

theorem of_reserve (validPath : Bool) :
    RegMove r (.load validPath) (r.reserve validPath).1 (r.reserve validPath).2 := by
  unfold Registry.reserve
  split_ifs with h1 h2 h3
  any_goals exact .refuse _ _ rfl rfl
  · exact .reserve validPath (by simpa using h2) (by omega)

theorem of_destroy : RegMove r .destroy r.destroy.1 r.destroy.2 := by
  unfold Registry.destroy
  split_ifs with h1 h2 h3
  any_goals exact .refuse _ _ rfl rfl
  · simp only [or_eq_true, bne_iff_ne, not_or, not_not, Bool.not_eq_true] at h2
    refine .destroy h2.1 h2.2 (by simpa using h1) fun i hi ho => ?_
    simp only [List.any_eq_true, List.mem_range, not_exists, not_and, blocks, or_eq_true,
      not_or, unused, not_eq_true', not_eq_false, and_eq_true,
      beq_iff_eq, Bool.not_eq_true] at h3
    exact (h3 i hi ho).1

theorem of_moveEntry (h : r.moveEntry p c = some m) : RegMove r p m.1 m.2 := by
  cases p <;> cases c <;> simp only [moveEntry] at h <;> cases h
  exacts [of_reserve _, of_start _, of_acquire _, of_release _, of_requestStop _,
    of_pollQuiescent _, of_unload _, of_destroy]

theorem of_publish (man : PluginManifest) (equal : List Nat) :
    RegMove r (.publish man) (r.publish man equal).1 (r.publish man equal).2 := by
  unfold Registry.publish
  split_ifs with h1 h2
  · exact .unpublished _ _ nofun
  · exact .unpublished _ _ nofun
  split
  · rename_i hnone
    refine .unpublished _ _ fun _ i hi => ?_
    simpa using List.find?_eq_none.1 hnone i (List.mem_range.2 hi)
  · rename_i i hi
    have hlt := List.mem_range.1 (List.mem_of_find?_eq_some hi)
    have hfree := List.find?_some hi
    refine .publish man equal i hlt (by simpa using hfree) (by simpa using h1) fun j hj => ?_
    by_contra hne
    exact h2 (List.any_eq_true.2 ⟨j,List.mem_range.2 hj,by simpa using hne⟩)

theorem of_moveLoad (h : r.moveLoad p c = some m) : RegMove r p m.1 m.2 := by
  cases p <;> cases c <;> simp only [moveLoad, reduceCtorEq] at h
  case loading.status =>
    split_ifs at h
    cases h
    exact .notOpened _
  case loading.query man =>
    cases man <;> simp only at h <;> cases h
    · exact .unusable _
    · split_ifs with hm
      · exact .opened _ hm
      · exact .unusable _
  case publish.reads man equal =>
    cases h
    exact of_publish man equal
  case loadReject.status =>
    cases h
    exact .rejected _ _
  case loadRelease.go =>
    cases h
    exact .released _

theorem of_afterCall {k : PluginCallback} (h : r.afterCall i k c = some m) :
    RegMove r (.inCall i k) m.1 m.2 := by
  cases k <;> cases c <;> simp only [afterCall, reduceCtorEq] at h
  case start.status status =>
    split_ifs at h <;> cases h <;> exact .back i _ _ _ _ rfl
  all_goals
    cases h
    exact .back i _ _ _ _ rfl

theorem of_sweep (i : Nat) : RegMove r (.sweep i) (r.sweep i).1 (r.sweep i).2 := by
  unfold Registry.sweep
  split_ifs with h1 h2
  · exact .sweepEnds i
  · exact .sweepOn i
  · exact of_beginUnload (.sweep i) (by simpa using h2)

theorem of_moveSlot (h : r.moveSlot p c = some m) : RegMove r p m.1 m.2 := by
  cases p
  case inCall i k => exact of_afterCall h
  all_goals cases c <;> simp only [moveSlot, reduceCtorEq] at h
  case sweep.go i =>
    cases h
    exact of_sweep i
  case inDestroy.go i c =>
    cases h
    exact .destroyed i c
  case closing.status i c status =>
    split_ifs at h <;> cases h
    exacts [.closed i c, .unclosed i c status]
  case clearing.go i c =>
    cases c <;> simp only at h <;> cases h
    exacts [.cleared i, .swept i]
  case closeFailed.go i c status =>
    cases c <;> simp only at h <;> cases h
    exacts [.unloadFails i status, .sweepFails i status]

theorem of_move {u : Registry} {q : RegPoint} {new : List RegPoint}
    (h : r.move p c = some (u, q, new)) : RegMove r p u q ∧ new = [] := by
  simp only [Registry.move, Option.map_eq_some_iff, Option.or_eq_some_iff] at h
  obtain ⟨m,hm,rfl,rfl,rfl⟩ := h
  refine ⟨?_,rfl⟩
  rcases hm with hm | ⟨-,hm | ⟨-,hm⟩⟩
  · exact of_moveEntry hm
  · exact of_moveLoad hm
  · exact of_moveSlot hm

end RegMove

/-! ### The invariant of one slot -/

/-- The slot, seen with `calls` counted callbacks, `destroying` destroy callbacks and `closing` other
closers on it. -/
structure SlotInv (r : Registry) (calls destroying closing i : Nat) (slot : PluginSlot) :
    Prop where
  range : slot.occupied = true → i < r.capacity
  leases : slot.activeLeases = slot.leaseCount
  generation : slot.generation = genOf slot.clears
  leaseGenerations : ∀ k, slot.leaseGenerations k = genOf (slot.turns k)
  callbacks : slot.callbacksInflight = calls + destroying
  closers : slot.unloading.toNat = destroying + closing
  quiet : slot.unloading = true → slot.activeLeases = 0 ∧ calls = 0
  free : slot.occupied = false →
    slot.activeLeases = 0 ∧ slot.callbacksInflight = 0 ∧ slot.unloading = false
  manifest : slot.occupied = true → ∃ m, slot.manifest = some m ∧ m.validate = .ok
  serial : slot.occupied = true → slot.serial < r.published
  once : slot.occupied = true → slot.serial ∈ r.destroys →
    slot.destroyCalled = true ∨ 0 < destroying
  issued : slot.occupied = true → ∃ x ∈ r.issued, x.index = i ∧ x.clears = slot.clears
  granted : ∀ k < 64, leaseActive slot.leaseActiveMask k = true →
    ∃ x ∈ r.granted, x.lease = ⟨⟨i + 1, slot.generation⟩, k + 1, slot.leaseGenerations k⟩

structure Grows (r t : Registry) : Prop where
  capacity : t.capacity = r.capacity
  published : r.published ≤ t.published
  issued : ∀ x ∈ r.issued, x ∈ t.issued
  granted : ∀ x ∈ r.granted, x ∈ t.granted

theorem Grows.refl (r : Registry) : Grows r r := ⟨rfl,le_rfl,fun _ h => h,fun _ h => h⟩

namespace SlotInv

variable {r t : Registry} {a b c i k : Nat} {slot : PluginSlot}

theorem keep (h : SlotInv r a b c i slot) (hg : Grows r t)
    (hd : slot.serial ∈ t.destroys → slot.serial ∈ r.destroys) : SlotInv t a b c i slot where
  range ho := hg.capacity ▸ h.range ho
  leases := h.leases
  generation := h.generation
  leaseGenerations := h.leaseGenerations
  callbacks := h.callbacks
  closers := h.closers
  quiet := h.quiet
  free := h.free
  manifest := h.manifest
  serial ho := (h.serial ho).trans_le hg.published
  once ho hm := h.once ho (hd hm)
  issued ho := by
    obtain ⟨x,hx,hxi⟩ := h.issued ho
    exact ⟨x,hg.issued x hx,hxi⟩
  granted k hk ha := by
    obtain ⟨x,hx,hxi⟩ := h.granted k hk ha
    exact ⟨x,hg.granted x hx,hxi⟩

theorem relabel (h : SlotInv r a b c i slot) (state : Option PluginLifecycle)
    (failure : PluginStatus) (imageOpen : Bool) :
    SlotInv r a b c i
      { slot with state := state, failure := failure, imageOpen := imageOpen } :=
  { h with }

theorem call (h : SlotInv r a b c i slot) (state : Option PluginLifecycle)
    (ho : slot.occupied = true) (hu : slot.unloading = false) :
    SlotInv r (a + 1) b c i (slot.call state) := by
  have hcb : slot.callbacksInflight+1 = a+1+b := by
    have := h.callbacks
    omega
  exact
    { h with
      callbacks := hcb
      quiet := fun hun => absurd hun (by simp [PluginSlot.call, hu])
      free := fun hfree => absurd hfree (by simp [PluginSlot.call, ho]) }

theorem back (h : SlotInv r (a + 1) b c i slot) (state : Option PluginLifecycle)
    (failure : PluginStatus) : SlotInv r a b c i (slot.back state failure) := by
  have hcb := h.callbacks
  have hbusy : slot.callbacksInflight-1 = a+b := by omega
  refine { h with callbacks := hbusy, quiet := ?_, free := ?_ }
  · intro hun
    have := (h.quiet hun).2
    omega
  · intro hfree
    have := (h.free hfree).2.1
    omega

section

variable (h : SlotInv r a b c i slot)

include h

theorem closers_zero (hu : slot.unloading = false) : b = 0 ∧ c = 0 := by
  have := h.closers
  rw [hu, Bool.toNat_false] at this
  omega

theorem acquire (hg : Grows r t) (hd : t.destroys = r.destroys) (ho : slot.occupied = true)
    (hu : slot.unloading = false) (hk : k < 64) (hfree : leaseActive slot.leaseActiveMask k = false)
    (hnew : ∃ x ∈ t.granted, x.lease = ⟨⟨i + 1, slot.generation⟩, k + 1, slot.leaseGenerations k⟩) :
    SlotInv t a b c i (slot.acquire k) := by
  have h' : SlotInv t a b c i slot := h.keep hg fun hm => hd ▸ hm
  refine { h' with leases := ?_, quiet := ?_, free := ?_, granted := ?_ }
  · rw [PluginSlot.leaseCount_acquire hk hfree, ← h.leases]
    rfl
  · intro hun
    exact absurd hun (by simp [PluginSlot.acquire, hu])
  · intro hno
    exact absurd hno (by simp [PluginSlot.acquire, ho])
  · intro j hj ha
    have ha' : (leaseActive slot.leaseActiveMask j || decide (j = k)) = true := by
      rw [← leaseActive_acquire _ hj hk]
      exact ha
    by_cases hjk : j = k
    · subst hjk
      exact hnew
    · exact h'.granted j hj (by simpa [hjk] using ha')

theorem release (ho : slot.occupied = true) (hk : k < 64)
    (hact : leaseActive slot.leaseActiveMask k = true) : SlotInv r a b c i (slot.release k) := by
  have hcount := PluginSlot.leaseCount_release hk hact
  have hl := h.leases
  refine { h with leases := ?_, leaseGenerations := ?_, quiet := ?_, free := ?_, granted := ?_ }
  · show slot.activeLeases-1 = _
    omega
  · intro j
    show Function.update slot.leaseGenerations k _ j = genOf (Function.update slot.turns k _ j)
    by_cases hjk : j = k
    · subst hjk
      rw [Function.update_self, Function.update_self, h.leaseGenerations, nextGeneration_genOf]
    · rw [Function.update_of_ne hjk, Function.update_of_ne hjk, h.leaseGenerations]
  · intro hun
    have := (h.quiet hun).1
    omega
  · intro hno
    exact absurd hno (by simp [PluginSlot.release, ho])
  · intro j hj ha
    have ha' : (leaseActive slot.leaseActiveMask j && decide (j ≠ k)) = true := by
      rw [← leaseActive_release _ hj hk]
      exact ha
    rw [and_eq_true, decide_eq_true_eq] at ha'
    obtain ⟨x,hx,hl⟩ := h.granted j hj ha'.1
    refine ⟨x,hx,hl.trans ?_⟩
    show _ = PluginLease.mk ⟨i+1,slot.generation⟩ _ (Function.update slot.leaseGenerations k _ j)
    rw [Function.update_of_ne ha'.2]

theorem numbers_zero (hu : slot.unloading = false)
    (hcb : slot.callbacksInflight = 0) : a = 0 ∧ b = 0 ∧ c = 0 := by
  obtain ⟨rfl,rfl⟩ := h.closers_zero hu
  exact ⟨h.callbacks.symm.trans hcb,rfl,rfl⟩

theorem beginDestroy (hg : Grows r t) (ho : slot.occupied = true)
    (hu : slot.unloading = false) (hcb : slot.callbacksInflight = 0) (hl : slot.activeLeases = 0)
    (hdes : slot.destroys = true) : SlotInv t a (b + 1) c i slot.unload := by
  obtain ⟨rfl,rfl,rfl⟩ := h.numbers_zero hu hcb
  have hbusy : slot.callbacksInflight+slot.destroys.toNat = 0+1 := by
    rw [hcb, hdes]
    rfl
  have h' := h.keep (t := { t with destroys := r.destroys })
    ⟨hg.capacity,hg.published,hg.issued,hg.granted⟩ fun hm => hm
  exact
    { h' with
      callbacks := hbusy
      closers := rfl
      quiet := fun _ => ⟨hl,rfl⟩
      free := fun hno => absurd hno (by simp [unload, ho])
      once := fun _ _ => .inr Nat.one_pos }

theorem beginClose (ho : slot.occupied = true)
    (hu : slot.unloading = false) (hcb : slot.callbacksInflight = 0) (hl : slot.activeLeases = 0)
    (hdes : slot.destroys = false) : SlotInv r a b (c + 1) i slot.unload := by
  obtain ⟨rfl,rfl,rfl⟩ := h.numbers_zero hu hcb
  have hbusy : slot.callbacksInflight+slot.destroys.toNat = 0 := by
    rw [hcb, hdes]
    rfl
  exact
    { h with
      callbacks := hbusy
      closers := rfl
      quiet := fun _ => ⟨hl,rfl⟩
      free := fun hno => absurd hno (by simp [unload, ho]) }

end

theorem destroyed (h : SlotInv r a (b + 1) c i slot) : SlotInv r a b (c + 1) i slot.destroyed := by
  have hcl := h.closers
  have hcb := h.callbacks
  have hun : slot.unloading = true := flag_of_pos (by omega)
  refine { h with callbacks := ?_, closers := ?_, free := ?_, once := fun _ _ => .inl rfl }
  · show slot.callbacksInflight-1 = _
    omega
  · show slot.unloading.toNat = _
    omega
  · intro hno
    exact absurd (h.free hno).2.2 (by simp [hun])

section

variable (h : SlotInv r a b (c + 1) i slot)

include h

theorem last_closer :
    a = 0 ∧ b = 0 ∧ c = 0 ∧ slot.activeLeases = 0 ∧ slot.unloading = true ∧
      slot.occupied = true := by
  have hcl := h.closers
  have hle := Bool.toNat_le slot.unloading
  have hun : slot.unloading = true := flag_of_pos (by omega)
  obtain ⟨hl,ha⟩ := h.quiet hun
  refine ⟨ha,by omega,by omega,hl,hun,?_⟩
  cases ho : slot.occupied
  · exact absurd (h.free ho).2.2 (by simp [hun])
  · rfl

theorem clear : SlotInv r a b c i slot.clear := by
  obtain ⟨rfl,rfl,rfl,-,-,-⟩ := h.last_closer
  refine ⟨nofun,?_,?_,?_,rfl,rfl,nofun,fun _ => ⟨rfl,rfl,rfl⟩,nofun,nofun,nofun,nofun,?_⟩
  · exact (leaseCount_zero rfl).symm
  · show nextGeneration slot.generation = _
    rw [h.generation, nextGeneration_genOf]
    rfl
  · intro k
    show nextGeneration (slot.leaseGenerations k) = _
    rw [h.leaseGenerations, nextGeneration_genOf]
    rfl
  · intro k _ ha
    simp [clear, leaseActive] at ha

theorem unclosed : SlotInv r a b c i { slot with unloading := false } := by
  obtain ⟨rfl,rfl,rfl,hl,hun,ho⟩ := h.last_closer
  exact { h with closers := rfl, quiet := nofun, free := fun hno => absurd hno (by simp [ho]) }

end

theorem publish (h : SlotInv r a b c i slot) (hg : Grows r t) (hi : i < r.capacity)
    (hfree : slot.occupied = false) {m : PluginManifest} (hm : m.validate = .ok)
    (hserial : r.published < t.published) (hnew : r.published ∉ t.destroys)
    (hiss : ∃ x ∈ t.issued, x.index = i ∧ x.clears = slot.clears) :
    SlotInv t a b c i (slot.publish m r.published) := by
  obtain ⟨-,hcb,hu⟩ := h.free hfree
  obtain ⟨rfl,rfl⟩ := h.closers_zero hu
  obtain rfl : a = 0 := by
    have := h.callbacks
    omega
  refine ⟨fun _ => hg.capacity ▸ hi,?_,h.generation,h.leaseGenerations,rfl,rfl,nofun,nofun,
    fun _ => ⟨m,rfl,hm⟩,fun _ => hserial,fun _ hmem => absurd hmem hnew,fun _ => hiss,?_⟩
  · exact (leaseCount_zero rfl).symm
  · intro k _ ha
    simp [publish, leaseActive] at ha

end SlotInv

end Salts.Plugin
