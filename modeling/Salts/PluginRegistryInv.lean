import Salts.PluginRegistryMove
import Salts.TableSum

/-!
What every interleaving of calls on a plugin registry keeps: the invariant of each slot, the counts
of occupied slots and of reservations, one loop of destroy at a time over slots that nobody uses,
and the records of what was issued.
-/

namespace Salts.Plugin

open ThreadPool Transition TableSum RegPoint Registry

abbrev RegSystem := Config Registry RegPoint

abbrev RegAction := Act RegPoint RegChoice

def regStep : RegSystem → RegAction → Option RegSystem :=
  ThreadPool.step move entry

def RegReady (s : RegSystem) : Prop :=
  s.threads = [] ∧ ∃ capacity, 0 < capacity ∧ capacity < 2 ^ 32 ∧ s.shared = { capacity }

namespace Registry

def occupiedCount (r : Registry) : Nat :=
  ((Finset.range r.capacity).filter fun i => (r.slot i).occupied = true).card

variable {r : Registry} {i : Nat} {slot : PluginSlot}

@[simp] theorem put_slot_self (r : Registry) (i : Nat) (slot : PluginSlot) :
    (r.put i slot).slot i = slot := Function.update_self ..

theorem put_slot_of_ne {j : Nat} (h : j ≠ i) : (r.put i slot).slot j = r.slot j :=
  Function.update_of_ne h ..

theorem occupiedCount_eq (r : Registry) :
    r.occupiedCount = tally (fun x : PluginSlot => x.occupied.toNat) r.capacity r.slot :=
  (tally_toNat fun x : PluginSlot => x.occupied).symm

theorem occupiedCount_put (h : slot.occupied = (r.slot i).occupied) :
    (r.put i slot).occupiedCount = r.occupiedCount := by
  rw [occupiedCount_eq, occupiedCount_eq]
  refine (tally_update_eq rfl ?_).symm
  rw [h]

theorem occupiedCount_fill (hi : i < r.capacity) (hfree : (r.slot i).occupied = false)
    (ho : slot.occupied = true) : (r.put i slot).occupiedCount = r.occupiedCount + 1 := by
  rw [occupiedCount_eq, occupiedCount_eq]
  exact (tally_update_succ rfl hi (by rw [ho, hfree]; rfl)).symm

theorem occupiedCount_free (hi : i < r.capacity) (ho : (r.slot i).occupied = true)
    (hfree : slot.occupied = false) : (r.put i slot).occupiedCount = r.occupiedCount - 1 := by
  rw [occupiedCount_eq, occupiedCount_eq]
  exact (tally_update_pred rfl hi (by rw [ho, hfree]; rfl)).symm

end Registry

namespace RegPoint

def unloads : RegPoint → Nat
  | .inDestroy _ .unload => 1
  | .closing _ .unload => 1
  | .clearing _ .unload => 1
  | .closeFailed _ .unload _ => 1
  | _ => 0

def loops : RegPoint → Nat
  | .sweep _ => 1
  | _ => 0

def turning : RegPoint → Nat
  | .inDestroy _ .sweep => 1
  | .closing _ .sweep => 1
  | .clearing _ .sweep => 1
  | .closeFailed _ .sweep _ => 1
  | _ => 0

theorem sweeps_eq (p : RegPoint) : p.sweeps = p.loops + p.turning := by
  rcases p with _ | _ | _ | _ | _ | _ | _ | _ | _ | _ | _ | _ | _ | _ | _ | _ | _ | ⟨_,_ | _⟩ |
    ⟨_,_ | _⟩ | ⟨_,_ | _⟩ | ⟨_,_ | _,_⟩ | _ <;> rfl

theorem unloadsAt_le (i : Nat) (p : RegPoint) : p.unloadsAt i ≤ p.unloads + p.turning := by
  rcases p with _ | _ | _ | _ | _ | _ | _ | _ | _ | _ | _ | _ | _ | _ | _ | _ | _ | ⟨_,_ | _⟩ |
    ⟨_,_ | _⟩ | ⟨_,_ | _⟩ | ⟨_,_ | _,_⟩ | _ <;>
    simp [unloadsAt, destroysAt, closesAt, unloads, turning] <;> split_ifs <;> omega

def Idle (p : RegPoint) : Prop :=
  p.reserving = 0 ∧ p.sweeps = 0 ∧ p.unloads = 0 ∧
    ∀ j, p.callsAt j = 0 ∧ p.destroysAt j = 0 ∧ p.closesAt j = 0

/-- A thread that is at work on the slot `i` at most, with the three numbers it counts there. -/
structure Weighs (p : RegPoint) (i calls destroying closing : Nat) : Prop where
  callsAt : p.callsAt i = calls
  destroysAt : p.destroysAt i = destroying
  closesAt : p.closesAt i = closing
  other : ∀ j, j ≠ i → p.callsAt j = 0 ∧ p.destroysAt j = 0 ∧ p.closesAt j = 0

variable {p : RegPoint}

theorem weighs_zero {i : Nat}
    (h : ∀ j, p.callsAt j = 0 ∧ p.destroysAt j = 0 ∧ p.closesAt j = 0) : p.Weighs i 0 0 0 :=
  ⟨(h i).1,(h i).2.1,(h i).2.2,fun j _ => h j⟩

theorem Idle.weighs (h : p.Idle) (i : Nat) : p.Weighs i 0 0 0 := weighs_zero h.2.2.2

theorem weighs_inCall (i : Nat) (k : PluginCallback) : (inCall i k).Weighs i 1 0 0 :=
  ⟨if_pos rfl,rfl,rfl,fun _ hj => ⟨if_neg (Ne.symm hj),rfl,rfl⟩⟩

section

variable (i : Nat) (c : Closer)

theorem weighs_inDestroy : (inDestroy i c).Weighs i 0 1 0 :=
  ⟨rfl,if_pos rfl,rfl,fun _ hj => ⟨rfl,if_neg (Ne.symm hj),rfl⟩⟩

theorem weighs_closing : (closing i c).Weighs i 0 0 1 :=
  ⟨rfl,rfl,if_pos rfl,fun _ hj => ⟨rfl,rfl,if_neg (Ne.symm hj)⟩⟩

theorem weighs_clearing : (clearing i c).Weighs i 0 0 1 :=
  ⟨rfl,rfl,if_pos rfl,fun _ hj => ⟨rfl,rfl,if_neg (Ne.symm hj)⟩⟩

theorem weighs_closeFailed (status : PluginStatus) : (closeFailed i c status).Weighs i 0 0 1 :=
  ⟨rfl,rfl,if_pos rfl,fun _ hj => ⟨rfl,rfl,if_neg (Ne.symm hj)⟩⟩

end

theorem idle_of_entry (h : p.entry = true) : p.Idle := by
  cases p <;> first | (cases h; done) | exact ⟨rfl,rfl,rfl,fun _ => ⟨rfl,rfl,rfl⟩⟩

theorem idle_of_ended (h : p.ended = true) : p.Idle := by
  cases p <;> first | (cases h; done) | exact ⟨rfl,rfl,rfl,fun _ => ⟨rfl,rfl,rfl⟩⟩

end RegPoint

def Apart {α : Type*} (f : Nat → Option PluginManifest → α) (r : Registry) : Prop :=
  ∀ i j, i ≠ j → (r.slot i).occupied = true → (r.slot j).occupied = true →
    f (r.slot i).serial (r.slot i).manifest ≠ f (r.slot j).serial (r.slot j).manifest

def SlotAt (r : Registry) (threads : List RegPoint) (i : Nat) : Prop :=
  SlotInv r (load (callsAt i) threads) (load (destroysAt i) threads)
    (load (closesAt i) threads) i (r.slot i)

structure RegInv (s : RegSystem) : Prop where
  slots : ∀ i, SlotInv s.shared (load (callsAt i) s.threads)
    (load (destroysAt i) s.threads) (load (closesAt i) s.threads) i
    (s.shared.slot i)
  count : s.shared.count = s.shared.occupiedCount
  reserved : s.shared.loadsInflight = load reserving s.threads
  room : s.shared.count + s.shared.loadsInflight ≤ s.shared.capacity
  sweeping : load sweeps s.threads + s.shared.gone.toNat = s.shared.destroying.toNat
  calm : s.shared.destroying = true → load unloads s.threads = 0 ∧
    ∀ i, (s.shared.slot i).activeLeases = 0 ∧ load (callsAt i) s.threads = 0
  serials : Apart (fun serial _ => serial) s.shared
  destroys : s.shared.destroys.Nodup ∧ ∀ x ∈ s.shared.destroys, x < s.shared.published
  issued : ∀ x ∈ s.shared.issued, x.ref = ⟨x.index + 1, genOf x.clears⟩ ∧
    x.clears ≤ (s.shared.slot x.index).clears
  granted : ∀ x ∈ s.shared.granted, x.lease.slot = x.bit + 1 ∧ x.lease.generation = genOf x.turns ∧
    x.lease.plugin.slot = x.index + 1 ∧ x.turns ≤ (s.shared.slot x.index).turns x.bit
  publishing : ∀ m, .publish m ∈ s.threads → m.validate = .ok

namespace RegInv

variable {s : RegSystem} {t : Registry} {p q : RegPoint} {n i : Nat}

theorem ready (h : RegReady s) : RegInv s := by
  obtain ⟨shared,threads⟩ := s
  obtain ⟨hthreads,capacity,-,-,hshared⟩ := h
  obtain rfl : threads = [] := hthreads
  obtain rfl : shared = { capacity } := hshared
  have hslot : ∀ i, SlotInv { capacity } 0 0 0 i {} := fun i =>
    { range := by simp
      leases := (PluginSlot.leaseCount_zero rfl).symm
      generation := genOf_zero.symm
      leaseGenerations := fun _ => genOf_zero.symm
      callbacks := rfl
      closers := rfl
      quiet := by simp
      free := fun _ => ⟨rfl,rfl,rfl⟩
      manifest := by simp
      serial := by simp
      once := by simp
      issued := by simp
      granted := fun k _ ha => by simp [leaseActive] at ha }
  exact
    { slots := hslot
      count := by simp [occupiedCount]
      reserved := rfl
      room := Nat.zero_le _
      sweeping := rfl
      calm := by simp
      serials := by rintro _ _ _ _ ⟨⟩
      destroys := ⟨List.nodup_nil,by simp⟩
      issued := by simp
      granted := by simp
      publishing := fun _ hm => absurd hm List.not_mem_nil }

variable {a b c a' b' c' : Nat}

/-- A move that changes the slot `i` at most, for a thread that is at work on no other slot. -/
theorem move_slots (h : RegInv s) (hp : s.threads[n]? = some p)
    (hwp : p.Weighs i a b c) (hwq : q.Weighs i a' b' c') (hg : Grows s.shared t)
    (hslot : ∀ j, j ≠ i → t.slot j = s.shared.slot j)
    (hd : ∀ j, j ≠ i → (s.shared.slot j).occupied = true →
      (s.shared.slot j).serial ∈ t.destroys → (s.shared.slot j).serial ∈ s.shared.destroys)
    (htarget : ∀ x y z, SlotInv s.shared (x + a) (y + b) (z + c) i (s.shared.slot i) →
      SlotInv t (x + a') (y + b') (z + c') i (t.slot i)) (j : Nat) :
    SlotAt t (s.threads.set n q ++ []) j := by
  have hmem := List.mem_of_getElem? hp
  have hcalls := load_step (w := callsAt j) q [] hp
  have hdes := load_step (w := destroysAt j) q [] hp
  have hclose := load_step (w := closesAt j) q [] hp
  have hold := h.slots j
  rw [load_nil] at hcalls hdes hclose
  unfold SlotAt
  by_cases hj : j = i
  · -- the thread takes its numbers away and brings the new ones
    subst hj
    rw [hwp.callsAt, hwq.callsAt] at hcalls
    rw [hwp.destroysAt, hwq.destroysAt] at hdes
    rw [hwp.closesAt, hwq.closesAt] at hclose
    obtain ⟨x,hx⟩ := Nat.exists_eq_add_of_le' (hwp.callsAt.symm.trans_le (weight_le_load hmem))
    obtain ⟨y,hy⟩ := Nat.exists_eq_add_of_le' (hwp.destroysAt.symm.trans_le (weight_le_load hmem))
    obtain ⟨z,hz⟩ := Nat.exists_eq_add_of_le' (hwp.closesAt.symm.trans_le (weight_le_load hmem))
    rw [hx, hy, hz] at hold
    convert htarget x y z hold using 1 <;> omega
  · -- another slot: its threads and its contents stay
    obtain ⟨hp1,hp2,hp3⟩ := hwp.other j hj
    obtain ⟨hq1,hq2,hq3⟩ := hwq.other j hj
    rw [hp1, hq1, Nat.add_zero] at hcalls
    rw [hp2, hq2, Nat.add_zero] at hdes
    rw [hp3, hq3, Nat.add_zero] at hclose
    rw [hcalls, hdes, hclose, hslot j hj]
    cases ho : (s.shared.slot j).occupied
    · exact { hold.keep (t := { t with destroys := s.shared.destroys })
          ⟨hg.capacity,hg.published,hg.issued,hg.granted⟩ (fun hm => hm) with
        once := fun hno => absurd hno (by simp [ho]) }
    · exact hold.keep hg (hd j hj ho)

theorem closer (h : RegInv s) (hp : p ∈ s.threads) (hc : p.closesAt i = 1) :
    load (callsAt i) s.threads = 0 ∧ load (destroysAt i) s.threads = 0 ∧
      (s.shared.slot i).activeLeases = 0 ∧ (s.shared.slot i).unloading = true ∧
      (s.shared.slot i).occupied = true ∧ i < s.shared.capacity := by
  have hw := weight_le_load (w := closesAt i) hp
  obtain ⟨c,hload⟩ : ∃ c, load (closesAt i) s.threads = c + 1 :=
    ⟨load (closesAt i) s.threads-1,by omega⟩
  have hslot := h.slots i
  rw [hload] at hslot
  obtain ⟨ha,hb,-,hl,hun,ho⟩ := hslot.last_closer
  exact ⟨ha,hb,hl,hun,ho,hslot.range ho⟩

theorem begins (h : RegInv s) (hp : p ∈ s.threads) {c : Closer} (hb : Begins s.shared p i c) :
    (s.shared.slot i).unloading = false ∧ (s.shared.slot i).callbacksInflight = 0 ∧
      (s.shared.slot i).activeLeases = 0 := by
  cases hb with
  | unload ref hd hu hl hc => exact ⟨hu,hc,hl⟩
  | sweep =>
    -- the loop itself is the only thread of destroy, and no unload is under way
    have hw := weight_le_load (w := loops) hp
    have hsum : load sweeps s.threads = load loops s.threads+load turning s.threads := by
      rw [← load_add]
      exact congrArg (load · s.threads) (funext sweeps_eq)
    have hsweep := h.sweeping
    have hle := Bool.toNat_le s.shared.destroying
    have hw1 : (sweep i).loops = 1 := rfl
    have hdes : s.shared.destroying = true := Bool.toNat_eq_one.1 (by omega)
    obtain ⟨hunload,hcalm⟩ := h.calm hdes
    have hat : load (unloadsAt i) s.threads ≤ load unloads s.threads+load turning s.threads := by
      rw [← load_add]
      exact load_le_load fun p _ => p.unloadsAt_le i
    have hsplit : load (unloadsAt i) s.threads =
        load (destroysAt i) s.threads+load (closesAt i) s.threads := load_add
    have hcl := (h.slots i).closers
    have hcb := (h.slots i).callbacks
    have hcalls := (hcalm i).2
    exact ⟨Bool.toNat_eq_zero.1 (by omega),by omega,(hcalm i).1⟩

section

variable (h : RegInv s) (hp : s.threads[n]? = some p) (hm : RegMove s.shared p t q)

include h hp hm

theorem move_count : t.count = t.occupiedCount ∧ t.count + t.loadsInflight ≤ t.capacity := by
  have hmem := List.mem_of_getElem? hp
  have hcount := h.count
  have hroom := h.room
  have hres := h.reserved
  have hput : ∀ {i : Nat} {slot : PluginSlot}, slot.occupied = (s.shared.slot i).occupied →
      s.shared.count = (s.shared.put i slot).occupiedCount := fun hs =>
    hcount.trans (occupiedCount_put hs).symm
  have hclear : ∀ i c, p = .clearing i c → s.shared.count-1 =
      (s.shared.put i (s.shared.slot i).clear).occupiedCount := by
    rintro i c rfl
    obtain ⟨-,-,-,-,ho,hi⟩ := h.closer hmem (if_pos rfl)
    rw [occupiedCount_free hi ho rfl, hcount]
  cases hm
  case reserve hr => exact ⟨hcount,hr⟩
  case publish m equal i hi hfree hd hdup =>
    have hw := weight_le_load (w := reserving) hmem
    have hw1 : (publish m).reserving = 1 := rfl
    constructor
    · show s.shared.count+1 = (s.shared.put i _).occupiedCount
      rw [occupiedCount_fill hi hfree rfl, hcount]
    · show s.shared.count+1+(s.shared.loadsInflight-1) ≤ s.shared.capacity
      omega
  case released =>
    refine ⟨hcount,?_⟩
    show s.shared.count+(s.shared.loadsInflight-1) ≤ s.shared.capacity
    omega
  case cleared i | swept i =>
    refine ⟨hclear i _ rfl,?_⟩
    show s.shared.count-1+s.shared.loadsInflight ≤ s.shared.capacity
    omega
  all_goals first | exact ⟨hcount,hroom⟩ | exact ⟨hput rfl,hroom⟩

theorem move_reserved : t.loadsInflight = load reserving (s.threads.set n q ++ []) := by
  have hmem := List.mem_of_getElem? hp
  refine balanced_move h.reserved hp ?_
  have hw := weight_le_load (w := reserving) hmem
  rw [← h.reserved] at hw
  have hidle : ∀ {x : RegPoint}, x.entry = true ∨ x.ended = true → x.reserving = 0 := by
    rintro x (hx | hx)
    · exact (idle_of_entry hx).1
    · exact (idle_of_ended hx).1
  cases hm
  case refuse hpe hqe | sets hd hpe hqe =>
    rw [hidle (.inl hpe), hidle (.inr hqe)]
    rfl
  case calls ho hd hu hpe =>
    rw [hidle (.inl hpe)]
    rfl
  case back hqe =>
    rw [hidle (.inr hqe)]
    rfl
  case beginsDestroy hb | beginsClose hb => cases hb <;> rfl
  case publish | released =>
    have h1 : 1 ≤ s.shared.loadsInflight := hw
    show s.shared.loadsInflight-1+1 = s.shared.loadsInflight+0+0
    omega
  all_goals rfl

theorem move_sweeping :
    load sweeps (s.threads.set n q ++ []) + t.gone.toNat = t.destroying.toNat := by
  have hmem := List.mem_of_getElem? hp
  have hl := load_step (w := sweeps) q [] hp
  have hw := weight_le_load (w := sweeps) hmem
  rw [load_nil] at hl
  have hsweep := h.sweeping
  have hle := Bool.toNat_le s.shared.destroying
  have hidle : ∀ {x : RegPoint}, x.entry = true ∨ x.ended = true → x.sweeps = 0 := by
    rintro x (hx | hx)
    · exact (idle_of_entry hx).2.1
    · exact (idle_of_ended hx).2.1
  -- every other move keeps the weight and the two flags
  have hkeep : p.sweeps = q.sweeps → t.gone = s.shared.gone → t.destroying = s.shared.destroying →
      load sweeps (s.threads.set n q ++ [])+t.gone.toNat = t.destroying.toNat := by
    intro hpq hg hd
    rw [hg, hd]
    omega
  cases hm
  case refuse hpe hqe | sets hd hpe hqe =>
    exact hkeep ((hidle (.inl hpe)).trans (hidle (.inr hqe)).symm) rfl rfl
  case calls ho hd hu hpe => exact hkeep (hidle (.inl hpe)) rfl rfl
  case back hqe => exact hkeep (hidle (.inr hqe)).symm rfl rfl
  case beginsDestroy hb | beginsClose hb => cases hb <;> exact hkeep rfl rfl rfl
  case destroyed c | closed c | unclosed c _ => cases c <;> exact hkeep rfl rfl rfl
  case sweepFails i status =>
    have h1 : (closeFailed i .sweep status).sweeps = 1 := rfl
    have h2 : (returned status).sweeps = 0 := rfl
    show _+s.shared.gone.toNat = 0
    omega
  case destroy hd hl0 hg hfree =>
    have h2 : (sweep 0).sweeps = 1 := rfl
    rw [hd, hg] at hsweep
    show _+s.shared.gone.toNat = 1
    rw [hg, Bool.toNat_false]
    omega
  case sweepEnds i =>
    have h1 : (sweep i).sweeps = 1 := rfl
    have h2 : (returned .ok).sweeps = 0 := rfl
    show _+1 = s.shared.destroying.toNat
    omega
  all_goals exact hkeep rfl rfl rfl

end

def Ages (x y : PluginSlot) : Prop := x.clears ≤ y.clears ∧ ∀ k, x.turns k ≤ y.turns k

def Stays (x y : PluginSlot) : Prop :=
  y.occupied = true → x.occupied = true ∧ y.serial = x.serial ∧ y.manifest = x.manifest

variable {slot : PluginSlot}

theorem forall_put {P : PluginSlot → PluginSlot → Prop} {r : Registry} (hrefl : ∀ x, P x x)
    (hi : P (r.slot i) slot) (j : Nat) : P (r.slot j) ((r.put i slot).slot j) := by
  by_cases hj : j = i
  · subst hj
    rwa [put_slot_self]
  · rw [put_slot_of_ne hj]
    exact hrefl _

theorem Ages.refl (x : PluginSlot) : Ages x x := ⟨le_rfl,fun _ => le_rfl⟩

theorem Stays.refl (x : PluginSlot) : Stays x x := fun h => ⟨h,rfl,rfl⟩

theorem ages (hm : RegMove s.shared p t q) (j : Nat) : Ages (s.shared.slot j) (t.slot j) := by
  cases hm
  case release i k ho hk hact =>
    refine forall_put Ages.refl ?_ j
    refine ⟨le_rfl,fun j => ?_⟩
    show _ ≤ Function.update (s.shared.slot i).turns k _ j
    by_cases hj : j = k
    · rw [hj, Function.update_self]
      exact Nat.le_succ _
    · rw [Function.update_of_ne hj]
  case cleared i | swept i =>
    refine forall_put Ages.refl ?_ j
    exact ⟨Nat.le_succ _,fun _ => Nat.le_succ _⟩
  all_goals first
    | exact Ages.refl _
    | refine forall_put Ages.refl ?_ j
      exact ⟨le_rfl,fun _ => le_rfl⟩

theorem move_apart {α : Type*} {f : Nat → Option PluginManifest → α} (h : Apart f s.shared)
    (hm : RegMove s.shared p t q) (hnew : ∀ m equal, p = .publish m →
      (∀ j < s.shared.capacity, s.shared.duplicates m equal j = false) →
      ∀ j, (s.shared.slot j).occupied = true →
        f s.shared.published (some m) ≠ f (s.shared.slot j).serial (s.shared.slot j).manifest) :
    Apart f t := by
  intro i j hij hi hj
  have hstays : (∀ x, Stays (s.shared.slot x) (t.slot x)) →
      f (t.slot i).serial (t.slot i).manifest ≠ f (t.slot j).serial (t.slot j).manifest := by
    intro hs
    obtain ⟨hoi,hsi,hmi⟩ := hs i hi
    obtain ⟨hoj,hsj,hmj⟩ := hs j hj
    rw [hsi, hsj, hmi, hmj]
    exact h i j hij hoi hoj
  cases hm
  case publish m equal n hn hfree hd hdup =>
    have hself : (s.shared.publishAt m n).slot n =
        (s.shared.slot n).publish m s.shared.published := put_slot_self ..
    have hother : ∀ x, x ≠ n → (s.shared.publishAt m n).slot x = s.shared.slot x :=
      fun x hx => put_slot_of_ne hx
    by_cases hin : i = n
    · subst hin
      rw [hother j (Ne.symm hij)] at hj ⊢
      rw [hself]
      exact hnew m equal rfl hdup j hj
    · by_cases hjn : j = n
      · subst hjn
        rw [hother i hin] at hi ⊢
        rw [hself]
        exact (hnew m equal rfl hdup i hi).symm
      · rw [hother i hin] at hi ⊢
        rw [hother j hjn] at hj ⊢
        exact h i j hij hi hj
  case cleared n | swept n => exact hstays (forall_put Stays.refl nofun)
  all_goals first
    | exact hstays fun _ => Stays.refl _
    | exact hstays (forall_put Stays.refl fun ho => ⟨ho,rfl,rfl⟩)

section

variable (h : RegInv s)

include h

theorem move_serials (hm : RegMove s.shared p t q) : Apart (fun serial _ => serial) t := by
  refine move_apart h.serials hm fun m equal hp hdup j hj => ?_
  -- the new serial is above all those in use
  exact ((h.slots j).serial hj).ne'

theorem move_destroys (hp : s.threads[n]? = some p) (hm : RegMove s.shared p t q) :
    t.destroys.Nodup ∧ ∀ x ∈ t.destroys, x < t.published := by
  have hmem := List.mem_of_getElem? hp
  obtain ⟨hnodup,hlt⟩ := h.destroys
  cases hm
  case publish => exact ⟨hnodup,fun x hx => (hlt x hx).trans (Nat.lt_succ_self _)⟩
  case beginsDestroy i c ho hdes hb =>
    -- the callback has not been called: it would have been marked, or still be running
    have hslot := h.slots i
    obtain ⟨hu,-,-⟩ := h.begins hmem hb
    obtain ⟨hzero,-⟩ := hslot.closers_zero hu
    have hfresh : (s.shared.slot i).serial ∉ s.shared.destroys := by
      intro hin
      simp only [PluginSlot.destroys] at hdes
      rcases hslot.once ho hin with hcalled | hpos
      · simp [hcalled] at hdes
      · omega
    constructor
    · refine List.Nodup.append hnodup (List.nodup_singleton _) ?_
      simpa using hfresh
    · intro x hx
      rcases List.mem_append.1 hx with hx | hx
      · exact hlt x hx
      · rw [List.mem_singleton.1 hx]
        exact hslot.serial ho
  all_goals exact ⟨hnodup,hlt⟩

theorem move_issued (hm : RegMove s.shared p t q) :
    ∀ x ∈ t.issued, x.ref = ⟨x.index + 1, genOf x.clears⟩ ∧ x.clears ≤ (t.slot x.index).clears := by
  have hages := fun j => (ages hm j).1
  have hold : ∀ x ∈ s.shared.issued, x.ref = ⟨x.index+1,genOf x.clears⟩ ∧
      x.clears ≤ (t.slot x.index).clears :=
    fun x hx => ⟨(h.issued x hx).1,(h.issued x hx).2.trans (hages x.index)⟩
  cases hm
  case publish m equal i hi hfree hd hdup =>
    intro x hx
    rcases List.mem_append.1 hx with hx | hx
    · exact hold x hx
    · rw [List.mem_singleton.1 hx]
      refine ⟨?_,hages i⟩
      rw [refOf, (h.slots i).generation]
  all_goals exact hold

theorem move_granted (hm : RegMove s.shared p t q) :
    ∀ x ∈ t.granted, x.lease.slot = x.bit + 1 ∧ x.lease.generation = genOf x.turns ∧
      x.lease.plugin.slot = x.index + 1 ∧ x.turns ≤ (t.slot x.index).turns x.bit := by
  have hages := fun j => (ages hm j).2
  have hold : ∀ x ∈ s.shared.granted, x.lease.slot = x.bit+1 ∧
      x.lease.generation = genOf x.turns ∧ x.lease.plugin.slot = x.index+1 ∧
      x.turns ≤ (t.slot x.index).turns x.bit := by
    intro x hx
    obtain ⟨h1,h2,h3,h4⟩ := h.granted x hx
    exact ⟨h1,h2,h3,h4.trans (hages x.index x.bit)⟩
  cases hm
  case acquire i k ho hd hu hk hfree =>
    intro x hx
    rcases List.mem_append.1 hx with hx | hx
    · exact hold x hx
    · rw [List.mem_singleton.1 hx]
      exact ⟨rfl,(h.slots i).leaseGenerations k,rfl,hages i k⟩
  all_goals exact hold

theorem move_calm (hp : s.threads[n]? = some p) (hm : RegMove s.shared p t q)
    (hd : t.destroying = true) : load unloads (s.threads.set n q ++ []) = 0 ∧
      ∀ i, (t.slot i).activeLeases = 0 ∧ load (callsAt i) (s.threads.set n q ++ []) = 0 := by
  have hl := load_step (w := unloads) q [] hp
  have hc := fun i => load_step (w := callsAt i) q [] hp
  simp only [load_nil] at hl hc
  have hkeep : s.shared.destroying = true → q.unloads ≤ p.unloads →
      (∀ j, q.callsAt j ≤ p.callsAt j) →
      (∀ j, (s.shared.slot j).activeLeases = 0 → (t.slot j).activeLeases = 0) →
      load unloads (s.threads.set n q ++ []) = 0 ∧ ∀ i, (t.slot i).activeLeases = 0 ∧
        load (callsAt i) (s.threads.set n q ++ []) = 0 := by
    intro hold hun hcalls hleases
    obtain ⟨hzero,hcalm⟩ := h.calm hold
    refine ⟨by omega,fun i => ⟨hleases i (hcalm i).1,?_⟩⟩
    have := hc i
    have := hcalls i
    have := (hcalm i).2
    omega
  have hput : ∀ {i : Nat} {slot : PluginSlot},
      ((s.shared.slot i).activeLeases = 0 → slot.activeLeases = 0) →
      ∀ j, (s.shared.slot j).activeLeases = 0 →
        ((s.shared.put i slot).slot j).activeLeases = 0 := fun {i slot} hs j =>
    forall_put (P := fun x y => x.activeLeases = 0 → y.activeLeases = 0) (fun _ hx => hx) hs j
  cases hm
  case destroy hd0 hl0 hg hfree =>
    have hunused : ∀ i, (s.shared.slot i).unloading = false ∧ (s.shared.slot i).activeLeases = 0 ∧
        (s.shared.slot i).callbacksInflight = 0 := by
      intro i
      cases ho : (s.shared.slot i).occupied
      · obtain ⟨h1,h2,h3⟩ := (h.slots i).free ho
        exact ⟨h3,h1,h2⟩
      · exact hfree i ((h.slots i).range ho) ho
    have hnone : load unloads s.threads = 0 := by
      by_contra hne
      obtain ⟨x,hx,hpos⟩ := exists_of_load_pos (Nat.pos_of_ne_zero hne)
      have hat : ∃ i, 0 < x.unloadsAt i := by
        rcases x with _ | _ | _ | _ | _ | _ | _ | _ | _ | _ | _ | _ | _ | _ | _ | _ | _ | ⟨i,_⟩ |
          ⟨i,_⟩ | ⟨i,_⟩ | ⟨i,_,_⟩ | _ <;> first
          | exact absurd hpos (Nat.lt_irrefl 0)
          | exact ⟨i,by simp [unloadsAt, destroysAt, closesAt]⟩
      obtain ⟨i,hi⟩ := hat
      have hw := weight_le_load (w := unloadsAt i) hx
      have hsplit : load (unloadsAt i) s.threads =
          load (destroysAt i) s.threads+load (closesAt i) s.threads := load_add
      obtain ⟨hb,hc⟩ := (h.slots i).closers_zero (hunused i).1
      omega
    refine ⟨?_,fun i => ⟨(hunused i).2.1,?_⟩⟩
    · have h2 : (sweep 0).unloads = 0 := rfl
      omega
    · have h2 : (sweep 0).callsAt i = 0 := rfl
      have := (h.slots i).callbacks
      have := (hunused i).2.2
      have := hc i
      omega
  case publish hd0 _ | sets hd0 _ _ | calls hd0 _ _ | acquire hd0 _ _ _ =>
    exact absurd hd (by simp [publishAt, put, hd0])
  case beginsDestroy i c ho hdes hb | beginsClose i c ho hdes hb =>
    cases hb with
    | unload ref hd0 => exact absurd hd (by simp [put, hd0])
    | sweep => exact hkeep hd le_rfl (fun _ => le_rfl) (hput fun hx => hx)
  case sweepFails => cases hd
  case refuse hpe hqe =>
    obtain ⟨-,-,h1,h2⟩ := idle_of_entry hpe
    obtain ⟨-,-,h3,h4⟩ := idle_of_ended hqe
    exact hkeep hd (h3.trans h1.symm).le (fun j => ((h4 j).1.trans (h2 j).1.symm).le) fun _ hx => hx
  case back hqe =>
    obtain ⟨-,-,h3,h4⟩ := idle_of_ended hqe
    exact hkeep hd (by rw [h3]; exact Nat.zero_le _) (fun j => by rw [(h4 j).1]; exact Nat.zero_le _)
      (hput fun hx => hx)
  case release i k ho hk hact =>
    exact hkeep hd le_rfl (fun _ => le_rfl) (hput fun hx => by simp [PluginSlot.release, hx])
  case destroyed c | closed c =>
    cases c <;> exact hkeep hd le_rfl (fun _ => Nat.zero_le _) (hput fun hx => hx)
  case unclosed c _ => cases c <;> exact hkeep hd le_rfl (fun _ => le_rfl) fun _ hx => hx
  case cleared => exact hkeep hd (Nat.zero_le _) (fun _ => le_rfl) (hput fun _ => rfl)
  case swept => exact hkeep hd le_rfl (fun _ => le_rfl) (hput fun _ => rfl)
  case unloadFails => exact hkeep hd (Nat.zero_le _) (fun _ => le_rfl) (hput fun hx => hx)
  all_goals exact hkeep hd le_rfl (fun _ => le_rfl) fun _ hx => hx

theorem still_slots (hp : s.threads[n]? = some p) (hg : Grows s.shared t)
    (hslot : t.slot = s.shared.slot) (hd : t.destroys = s.shared.destroys)
    (hw : ∀ j, p.callsAt j = q.callsAt j ∧ p.destroysAt j = q.destroysAt j ∧
      p.closesAt j = q.closesAt j) (j : Nat) : SlotAt t (s.threads.set n q ++ []) j := by
  have hsame : ∀ {w : RegPoint → Nat}, w p = w q →
      load w (s.threads.set n q ++ []) = load w s.threads := by
    intro w heq
    have := load_step (w := w) q [] hp
    rw [load_nil] at this
    omega
  obtain ⟨h1,h2,h3⟩ := hw j
  unfold SlotAt
  rw [hsame h1, hsame h2, hsame h3, hslot]
  exact (h.slots j).keep hg fun hm => hd ▸ hm

theorem put_slots {destroying : Bool}
    (hp : s.threads[n]? = some p) (hwp : p.Weighs i a b c) (hwq : q.Weighs i a' b' c')
    (htarget : ∀ x y z, SlotInv s.shared (x + a) (y + b) (z + c) i (s.shared.slot i) →
      SlotInv s.shared (x + a') (y + b') (z + c') i slot) :
    ∀ j, SlotAt { s.shared.put i slot with destroying := destroying }
      (s.threads.set n q ++ []) j := by
  have hg : Grows s.shared { s.shared.put i slot with destroying := destroying } :=
    ⟨rfl,le_rfl,fun _ hx => hx,fun _ hx => hx⟩
  refine h.move_slots hp hwp hwq hg (fun j hj => put_slot_of_ne hj)
    (fun _ _ _ hm => hm) fun x y z hs => ?_
  rw [put_slot_self]
  exact (htarget x y z hs).keep hg fun hm => hm

theorem clear_slots {c : Closer} (hp : s.threads[n]? = some (.clearing i c))
    (hwq : q.Weighs i 0 0 0) : ∀ j, SlotAt (s.shared.clearAt i) (s.threads.set n q ++ []) j := by
  have hg : Grows s.shared (s.shared.clearAt i) := ⟨rfl,le_rfl,fun _ hx => hx,fun _ hx => hx⟩
  refine h.move_slots hp (weighs_clearing i c) hwq hg
    (fun j hj => put_slot_of_ne hj) (fun _ _ _ hm => hm) fun x y z hs => ?_
  rw [show (s.shared.clearAt i).slot i = _ from put_slot_self ..]
  exact hs.clear.keep hg fun hm => hm

theorem move_all_slots (hp : s.threads[n]? = some p) (hm : RegMove s.shared p t q) :
    ∀ j, SlotAt t (s.threads.set n q ++ []) j := by
  have hmem := List.mem_of_getElem? hp
  have hnone : ∀ {x : RegPoint} {i : Nat}, (∀ j, x.callsAt j = 0 ∧ x.destroysAt j = 0 ∧
      x.closesAt j = 0) → x.Weighs i 0 0 0 := weighs_zero
  cases hm
  case refuse hpe hqe =>
    refine h.still_slots hp (Grows.refl _) rfl rfl fun j => ?_
    obtain ⟨h1,h2,h3⟩ := (idle_of_entry hpe).2.2.2 j
    obtain ⟨h4,h5,h6⟩ := (idle_of_ended hqe).2.2.2 j
    rw [h1, h2, h3, h4, h5, h6]
    exact ⟨rfl,rfl,rfl⟩
  case publish m equal i hi hfree hd hdup =>
    have hg : Grows s.shared (s.shared.publishAt m i) :=
      ⟨rfl,Nat.le_succ _,fun _ hx => List.mem_append_left _ hx,fun _ hx => hx⟩
    refine h.move_slots (i := i) hp (hnone fun _ => ⟨rfl,rfl,rfl⟩) (hnone fun _ => ⟨rfl,rfl,rfl⟩)
      hg (fun j hj => put_slot_of_ne hj) (fun _ _ _ hm => hm) fun x y z hs => ?_
    rw [show (s.shared.publishAt m i).slot i = _ from put_slot_self ..]
    refine hs.publish hg hi hfree (h.publishing m hmem) (Nat.lt_succ_self _) ?_ ?_
    · intro hin
      exact absurd (h.destroys.2 _ hin) (Nat.lt_irrefl _)
    · exact ⟨_,List.mem_append_right _ (List.mem_singleton.2 rfl),rfl,rfl⟩
  case sets i state hd hpe hqe =>
    exact h.put_slots hp ((idle_of_entry hpe).weighs i)
      ((idle_of_ended hqe).weighs i) fun _ _ _ hs => hs.relabel state _ _
  case calls i state k ho hd hu hpe =>
    exact h.put_slots hp ((idle_of_entry hpe).weighs i) (weighs_inCall i k)
      fun _ _ _ hs => hs.call state ho hu
  case back i k state failure hqe =>
    exact h.put_slots hp (weighs_inCall i k) ((idle_of_ended hqe).weighs i)
      fun _ _ _ hs => hs.back state failure
  case acquire i k ho hd hu hk hfree =>
    have hg : Grows s.shared { s.shared.put i ((s.shared.slot i).acquire k) with
        granted := s.shared.granted ++ [⟨s.shared.leaseOf i k,i,k,(s.shared.slot i).clears,
          (s.shared.slot i).turns k⟩] } :=
      ⟨rfl,le_rfl,fun _ hx => hx,fun _ hx => List.mem_append_left _ hx⟩
    refine h.move_slots (i := i) hp (hnone fun _ => ⟨rfl,rfl,rfl⟩) (hnone fun _ => ⟨rfl,rfl,rfl⟩)
      hg (fun j hj => put_slot_of_ne hj) (fun _ _ _ hm => hm) fun x y z hs => ?_
    rw [put_slot_self]
    exact hs.acquire hg rfl ho hu hk hfree
      ⟨_,List.mem_append_right _ (List.mem_singleton.2 rfl),rfl⟩
  case release i k ho hk hact =>
    exact h.put_slots hp (hnone fun _ => ⟨rfl,rfl,rfl⟩) (hnone fun _ => ⟨rfl,rfl,rfl⟩)
      fun _ _ _ hs => hs.release ho hk hact
  case beginsDestroy i c ho hdes hb =>
    obtain ⟨hu,hcb,hl⟩ := h.begins hmem hb
    have hg : Grows s.shared { s.shared.put i (s.shared.slot i).unload with
        destroys := s.shared.destroys ++ [(s.shared.slot i).serial] } :=
      ⟨rfl,le_rfl,fun _ hx => hx,fun _ hx => hx⟩
    have hwp : p.Weighs i 0 0 0 := hnone (by cases hb <;> exact fun _ => ⟨rfl,rfl,rfl⟩)
    refine h.move_slots hp hwp (weighs_inDestroy i c) hg
      (fun j hj => put_slot_of_ne hj) ?_ fun x y z hs => ?_
    · intro j hj hoj hin
      rcases List.mem_append.1 hin with hin | hin
      · exact hin
      · exact absurd (List.mem_singleton.1 hin) (h.serials j i hj hoj ho)
    · rw [put_slot_self]
      exact hs.beginDestroy hg ho hu hcb hl hdes
  case beginsClose i c ho hdes hb =>
    obtain ⟨hu,hcb,hl⟩ := h.begins hmem hb
    have hwp : p.Weighs i 0 0 0 := hnone (by cases hb <;> exact fun _ => ⟨rfl,rfl,rfl⟩)
    exact h.put_slots hp hwp (weighs_closing i c)
      fun _ _ _ hs => hs.beginClose ho hu hcb hl hdes
  case destroyed i c =>
    exact h.put_slots hp (weighs_inDestroy i c) (weighs_closing i c)
      fun _ _ _ hs => hs.destroyed
  case closed i c =>
    exact h.put_slots hp (weighs_closing i c) (weighs_clearing i c)
      fun _ _ _ hs => hs.relabel _ _ false
  case unclosed i c status =>
    exact h.still_slots hp (Grows.refl _) rfl rfl fun j => ⟨rfl,rfl,rfl⟩
  case cleared i | swept i => exact h.clear_slots hp (hnone fun _ => ⟨rfl,rfl,rfl⟩)
  case unloadFails i status | sweepFails i status =>
    exact h.put_slots hp (weighs_closeFailed i _ status) (hnone fun _ => ⟨rfl,rfl,rfl⟩)
      fun _ _ _ hs => hs.unclosed
  all_goals
    exact h.still_slots hp ⟨rfl,le_rfl,fun _ hx => hx,fun _ hx => hx⟩ rfl rfl
      fun _ => ⟨rfl,rfl,rfl⟩

theorem move_publishing (hm : RegMove s.shared p t q) :
    ∀ m, .publish m ∈ s.threads.set n q ++ [] → m.validate = .ok := by
  intro m hin
  rw [List.append_nil] at hin
  rcases List.mem_or_eq_of_mem_set hin with hin | rfl
  · exact h.publishing m hin
  cases hm with
  | opened _ hv => exact hv
  | refuse _ _ _ hq => cases hq
  | sets _ _ _ _ _ hq => cases hq
  | back _ _ _ _ _ hq => cases hq

theorem move (hp : s.threads[n]? = some p) (hm : RegMove s.shared p t q) :
    RegInv { shared := t, threads := s.threads.set n q ++ [] } where
  slots := h.move_all_slots hp hm
  count := (h.move_count hp hm).1
  reserved := h.move_reserved hp hm
  room := (h.move_count hp hm).2
  sweeping := h.move_sweeping hp hm
  calm := h.move_calm hp hm
  serials := h.move_serials hm
  destroys := h.move_destroys hp hm
  issued := h.move_issued hm
  granted := h.move_granted hm
  publishing := h.move_publishing hm

end

theorem enter (h : RegInv s) (hp : p.entry = true) :
    RegInv { shared := s.shared, threads := s.threads ++ [p] } := by
  obtain ⟨hres,hsw,hun,hat⟩ := idle_of_entry hp
  exact
    { h with
      slots := by
        intro i
        obtain ⟨h1,h2,h3⟩ := hat i
        rw [load_enter _ h1, load_enter _ h2, load_enter _ h3]
        exact h.slots i
      reserved := by
        rw [load_enter _ hres]
        exact h.reserved
      sweeping := by
        rw [load_enter _ hsw]
        exact h.sweeping
      calm := by
        intro hd
        rw [load_enter _ hun]
        refine ⟨(h.calm hd).1,fun i => ?_⟩
        rw [load_enter _ (hat i).1]
        exact (h.calm hd).2 i
      publishing := by
        intro m hin
        rcases List.mem_append.1 hin with hin | hin
        · exact h.publishing m hin
        · rw [← List.mem_singleton.1 hin] at hp
          cases hp }

theorem step {a : RegAction} {u : RegSystem} (h : RegInv s) (hs : regStep s a = some u) :
    RegInv u := by
  rcases step_cases hs with ⟨n,c,p,t,q,new,rfl,hp,hm,rfl⟩ | ⟨p,rfl,hp,rfl⟩
  · obtain ⟨hmove,rfl⟩ := RegMove.of_move hm
    exact h.move hp hmove
  · exact h.enter hp

theorem reach {ok : RegSystem → RegAction → Prop} (hs : Reach regStep RegReady ok s) : RegInv s :=
  hs.invariant (fun _ => ready) fun _ _ _ h _ => h.step

end RegInv

end Salts.Plugin
