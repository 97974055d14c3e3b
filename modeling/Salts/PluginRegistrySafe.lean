import Salts.PluginRegistryInv

/-!
What a plugin registry guarantees to its callers in every interleaving: one destroy callback for a
plugin, an image that nobody uses when it is closed, counters that agree with what they count, and
refs and leases that are refused once they are stale.
-/

namespace Salts.Plugin

open ThreadPool Transition
open Registry (clearAt duplicates leaseOf move moveEntry moveLoad publish refOf release reserve
  slotForRef_ok)

def Rejects (r : Registry) (m : Registry.Move) : Prop :=
  ∃ status, status ≠ PluginStatus.ok ∧ m = (r, .returned status)

def RefDead (r : Registry) (ref : PluginRef) : Prop :=
  ∀ i < r.capacity, (r.slot i).occupied = true → ref ≠ r.refOf i

def LeaseDead (r : Registry) (lease : PluginLease) : Prop :=
  ∀ i < r.capacity, (r.slot i).occupied = true → ∀ k < maxLeasesPerPlugin,
    leaseActive (r.slot i).leaseActiveMask k = true → lease ≠ r.leaseOf i k

structure RefRejected (r : Registry) (ref : PluginRef) : Prop where
  start : Rejects r (r.start ref)
  acquire : Rejects r (r.acquire ref)
  requestStop : Rejects r (r.requestStop ref)
  pollQuiescent : Rejects r (r.pollQuiescent ref)
  unload : Rejects r (r.unload ref)

def DistinctIds (r : Registry) : Prop :=
  Apart (fun _ manifest => manifest.map PluginManifest.pluginId) r

variable {m : PluginManifest}

theorem PluginManifest.id_valid (h : m.validate = .ok) :
    boundedCstrValid m.pluginId pluginIdMax = true := by
  unfold validate at h
  split_ifs at h with h1 h2 <;> simp_all

section Tokens

variable {r : Registry} {ref : PluginRef} {lease : PluginLease}

theorem slotForRef_error {status : PluginStatus} (h : r.slotForRef ref = .error status) :
    status ≠ .ok := by
  unfold Registry.slotForRef at h
  split_ifs at h <;> cases h <;> decide

theorem withSlot_rejects (h : RefDead r ref) (body : Nat → PluginSlot → Registry.Move) :
    Rejects r (r.withSlot ref body) := by
  unfold Registry.withSlot
  split_ifs
  · exact ⟨.invalidArgument,by decide,rfl⟩
  split
  case h_1 status hs => exact ⟨status,slotForRef_error hs,rfl⟩
  case h_2 i hi =>
    obtain ⟨hlt,ho,heq⟩ := slotForRef_ok hi
    exact absurd heq (h i hlt ho)

theorem RefDead.rejected (h : RefDead r ref) : RefRejected r ref :=
  ⟨withSlot_rejects h _,withSlot_rejects h _,withSlot_rejects h _,withSlot_rejects h _,
    withSlot_rejects h _⟩

theorem LeaseDead.rejected (h : LeaseDead r lease) : Rejects r (r.release lease) := by
  unfold release
  split_ifs with hvalid
  · exact ⟨.invalidArgument,by decide,rfl⟩
  split
  case h_1 status hs => exact ⟨status,slotForRef_error hs,rfl⟩
  case h_2 i hi =>
    obtain ⟨hlt,ho,heq⟩ := slotForRef_ok hi
    dsimp only
    split_ifs with hk hact
    · exact ⟨.stale,by decide,rfl⟩
    · exact ⟨.stale,by decide,rfl⟩
    -- the lookup has found a lease in use, and it is this one
    simp only [Bool.or_eq_true, Bool.not_eq_true', bne_iff_ne, not_or, Bool.not_eq_false,
      not_not] at hact
    have hslot : lease.slot-1+1 = lease.slot := by
      simp only [PluginLease.valid, Bool.or_eq_true, Bool.not_eq_true', not_or,
        Bool.not_eq_false, Bool.and_eq_true, bne_iff_ne] at hvalid
      omega
    refine absurd ?_ (h i hlt ho (lease.slot-1) (Nat.lt_of_not_le hk) hact.1)
    rw [leaseOf, ← heq, hslot, hact.2]

end Tokens

structure RegistrySafe (s : RegSystem) : Prop where
  destroyOnce : s.shared.destroys.Nodup
  closed : ∀ i c, .closing i c ∈ s.threads →
    (s.shared.slot i).leaseCount = 0 ∧ (s.shared.slot i).callbacksInflight = 0 ∧
      ∀ p ∈ s.threads, p.callsAt i = 0 ∧ p.destroysAt i = 0
  leases : ∀ i, (s.shared.slot i).activeLeases = (s.shared.slot i).leaseCount
  count : s.shared.count = s.shared.occupiedCount
  reserved : ∀ m, .publish m ∈ s.threads → ∀ equal,
    (s.shared.publish m equal).2 ≠ .loadReject .capacityExceeded
  -- refs
  deadRef : ∀ ref, RefDead s.shared ref → RefRejected s.shared ref
  forgedRef : ∀ ref, (∀ x ∈ s.shared.issued, x.ref ≠ ref) → RefDead s.shared ref
  staleRef : ∀ x ∈ s.shared.issued, x.clears ≠ (s.shared.slot x.index).clears →
    (s.shared.slot x.index).clears - x.clears ≤ 2 ^ 32 - 2 → RefDead s.shared x.ref
  -- leases
  deadLease : ∀ lease, LeaseDead s.shared lease → Rejects s.shared (s.shared.release lease)
  forgedLease : ∀ lease, (∀ x ∈ s.shared.granted, x.lease ≠ lease) → LeaseDead s.shared lease
  staleLease : ∀ x ∈ s.shared.granted, x.turns ≠ (s.shared.slot x.index).turns x.bit →
    (s.shared.slot x.index).turns x.bit - x.turns ≤ 2 ^ 32 - 2 → LeaseDead s.shared x.lease

namespace RegInv

variable {s : RegSystem}

section

variable (h : RegInv s)

include h

theorem free_slot {p : RegPoint} (hp : p ∈ s.threads) (hr : p.reserving = 1) :
    ∃ i < s.shared.capacity, (s.shared.slot i).occupied = false := by
  have hw := weight_le_load (w := RegPoint.reserving) hp
  have hres := h.reserved
  have hroom := h.room
  have hcount := h.count
  by_contra hfull
  have hall : s.shared.occupiedCount = s.shared.capacity := by
    unfold Registry.occupiedCount
    rw [Finset.filter_true_of_mem, Finset.card_range]
    intro i hi
    by_contra hfree
    exact hfull ⟨i,Finset.mem_range.1 hi,by simpa using hfree⟩
  omega

theorem publish_room (hp : .publish m ∈ s.threads) (equal : List Nat)
    : (s.shared.publish m equal).2 ≠ .loadReject .capacityExceeded := by
  obtain ⟨i,hi,hfree⟩ := h.free_slot hp rfl
  unfold publish
  split_ifs
  · nofun
  · nofun
  split
  case h_1 hnone =>
    have hocc := List.find?_eq_none.1 hnone i (List.mem_range.2 hi)
    exact absurd hfree (by simpa using hocc)
  case h_2 => nofun

theorem forged_ref {ref : PluginRef} (hf : ∀ x ∈ s.shared.issued, x.ref ≠ ref) :
    RefDead s.shared ref := by
  rintro i - ho rfl
  obtain ⟨x,hx,hi,hc⟩ := (h.slots i).issued ho
  refine hf x hx ?_
  rw [(h.issued x hx).1, hi, hc, refOf, (h.slots i).generation]

theorem stale_ref {x : IssuedRef} (hx : x ∈ s.shared.issued)
    (hne : x.clears ≠ (s.shared.slot x.index).clears)
    (hnear : (s.shared.slot x.index).clears - x.clears ≤ 2 ^ 32 - 2) : RefDead s.shared x.ref := by
  rintro i - ho heq
  obtain ⟨href,hle⟩ := h.issued x hx
  rw [href, refOf, (h.slots i).generation] at heq
  obtain ⟨hi,hg⟩ := PluginRef.mk.inj heq
  obtain rfl : x.index = i := Nat.succ.inj hi
  exact genOf_ne (lt_of_le_of_ne hle hne) (by omega) hg

theorem forged_lease {lease : PluginLease} (hf : ∀ x ∈ s.shared.granted, x.lease ≠ lease)
    : LeaseDead s.shared lease := by
  rintro i - ho k hk hact rfl
  obtain ⟨x,hx,hl⟩ := (h.slots i).granted k hk hact
  exact hf x hx hl

theorem stale_lease {x : GrantedLease} (hx : x ∈ s.shared.granted)
    (hne : x.turns ≠ (s.shared.slot x.index).turns x.bit)
    (hnear : (s.shared.slot x.index).turns x.bit - x.turns ≤ 2 ^ 32 - 2) :
    LeaseDead s.shared x.lease := by
  rintro i - ho k hk hact heq
  obtain ⟨hs,hg,hp,hle⟩ := h.granted x hx
  rw [heq] at hs hg hp
  obtain rfl : x.index = i := (Nat.succ.inj hp).symm
  obtain rfl : x.bit = k := (Nat.succ.inj hs).symm
  refine genOf_ne (lt_of_le_of_ne hle hne) (by omega) ?_
  rw [← hg]
  exact (h.slots x.index).leaseGenerations x.bit

theorem closing_unused {i : Nat} {c : Closer} (hp : .closing i c ∈ s.threads) :
    (s.shared.slot i).leaseCount = 0 ∧ (s.shared.slot i).callbacksInflight = 0 ∧
      ∀ p ∈ s.threads, p.callsAt i = 0 ∧ p.destroysAt i = 0 := by
  obtain ⟨hcalls,hdes,hl,-⟩ := h.closer hp (if_pos rfl)
  refine ⟨(h.slots i).leases ▸ hl,?_,fun p hp => ⟨?_,?_⟩⟩
  · rw [(h.slots i).callbacks, hcalls, hdes]
  · have := weight_le_load (w := RegPoint.callsAt i) hp
    omega
  · have := weight_le_load (w := RegPoint.destroysAt i) hp
    omega

theorem safe : RegistrySafe s where
  destroyOnce := h.destroys.1
  closed _ _ := h.closing_unused
  leases i := (h.slots i).leases
  count := h.count
  reserved _ := h.publish_room
  deadRef _ := RefDead.rejected
  forgedRef _ := h.forged_ref
  staleRef _ := h.stale_ref
  deadLease _ := LeaseDead.rejected
  forgedLease _ := h.forged_lease
  staleLease _ := h.stale_lease

end

end RegInv

/-- A load that comes to its second region while the image of a plugin in the registry is closed
already. -/
def publishesClosed (s : RegSystem) : RegPoint → Bool
  | .publish _ => (List.range s.shared.capacity).any fun i =>
    (s.shared.slot i).occupied && !(s.shared.slot i).imageOpen
  | _ => false

theorem distinct_move {s : RegSystem} {t : Registry} {p q : RegPoint} {n : Nat} (h : RegInv s)
    (hids : DistinctIds s.shared) (hp : s.threads[n]? = some p) (hm : RegMove s.shared p t q)
    (hopen : publishesClosed s p = false) : DistinctIds t := by
  refine RegInv.move_apart hids hm ?_
  rintro m equal rfl hdup j hj
  have hlt := (h.slots j).range hj
  obtain ⟨e,he,hve⟩ := (h.slots j).manifest hj
  have himage : (s.shared.slot j).imageOpen = true := by
    have := (List.any_eq_false.1 hopen) j (List.mem_range.2 hlt)
    simpa [hj] using this
  have hne := hdup j hlt
  have hvm := h.publishing m (List.mem_of_getElem? hp)
  simp only [duplicates, hj, himage, PluginSlot.has, he, Option.any_some, pluginIdEqual,
    PluginManifest.id_valid hve, PluginManifest.id_valid hvm] at hne
  rw [he]
  simpa using Ne.symm (by simpa using hne)

/-- In every interleaving the registry keeps its guarantees; and as long as no load comes to its
second region while the image of a plugin in the registry is closed already, ids are distinct. -/
theorem plugin_registry_safe {s : RegSystem} (hs : Reach regStep RegReady anyAction s) :
    RegistrySafe s ∧
      (Reach regStep RegReady (avoids publishesClosed) s → DistinctIds s.shared) := by
  refine ⟨(RegInv.reach hs).safe,fun hopen => ?_⟩
  have hboth : RegInv s ∧ DistinctIds s.shared := by
    refine hopen.invariant (I := fun s => RegInv s ∧ DistinctIds s.shared) ?_ ?_
    · intro s h
      refine ⟨.ready h,?_⟩
      obtain ⟨-,capacity,-,-,hshared⟩ := h
      rw [hshared]
      nofun
    · rintro s a t ⟨hinv,hids⟩ hok ha
      refine ⟨hinv.step ha,?_⟩
      rcases step_cases ha with ⟨n,c,p,u,q,new,rfl,hp,hm,rfl⟩ | ⟨p,rfl,hp,rfl⟩
      · exact distinct_move hinv hids hp (RegMove.of_move hm).1 (avoids_run hok hp)
      · exact hids
  exact hboth.2

def emptyPair : RegSystem := { shared := { capacity := 2 }, threads := [] }

theorem emptyPair_ready : RegReady emptyPair := ⟨rfl,2,by decide,by decide,rfl⟩

/-- One plugin is loaded, started and leased; a second one is loaded and about to be closed by an
unload. -/
def leaseAndUnload : List RegAction :=
  [.enter (.load true), .run 0 .go,
    .run 0 (.query (some ⟨"a", true, true, true, true, true, .ok, .ok⟩)), .run 0 (.reads []),
    .enter (.start ⟨1, 1⟩), .run 1 .go, .run 1 (.status .ok), .enter (.acquire ⟨1, 1⟩), .run 2 .go,
    .enter (.load true), .run 3 .go,
    .run 3 (.query (some ⟨"b", true, true, true, true, true, .ok, .ok⟩)), .run 3 (.reads []),
    .enter (.unload ⟨2, 1⟩), .run 4 .go, .run 4 .go]

theorem leaseAndUnload_safe : ∃ s, exec regStep emptyPair leaseAndUnload = some s ∧
    ((s.shared.slot 0).activeLeases = 1 ∧ s.shared.count = 2 ∧ s.shared.destroys = [1] ∧
      .closing 1 .unload ∈ s.threads) ∧ RegistrySafe s ∧ DistinctIds s.shared := by
  refine exec_shows_and (by decide +kernel) fun s he _ => ?_
  have hopen : Reach regStep RegReady (avoids publishesClosed) s :=
    .exec_admits (.start emptyPair_ready) (by decide +kernel) he
  obtain ⟨hsafe,hids⟩ := plugin_registry_safe (hopen.mono fun _ _ _ => trivial)
  exact ⟨hsafe,hids hopen⟩

def plainPlugin : PluginManifest := { pluginId := "a" }

structure Rested (k : Nat) (r : Registry) : Prop where
  capacity : r.capacity = 1
  count : r.count = 0
  loads : r.loadsInflight = 0
  alive : r.destroying = false ∧ r.gone = false
  free : (r.slot 0).occupied = false
  generation : (r.slot 0).generation = genOf k
  clears : (r.slot 0).clears = k
  first : 0 < k → ⟨⟨1, 1⟩, 0, 0⟩ ∈ r.issued

def loadedOne (r : Registry) : Registry :=
  ({ r with loadsInflight := r.loadsInflight + 1 } : Registry).publishAt plainPlugin 0

def unloadedOne (r : Registry) : Registry :=
  let began := (loadedOne r).put 0 ((loadedOne r).slot 0).unload
  (began.put 0 { began.slot 0 with imageOpen := false }).clearAt 0

namespace Rested

variable {r : Registry} {k : Nat}

theorem load (h : Rested k r) : solo move r (.load true)
    [.go, .query (some plainPlugin), .reads []] = some (loadedOne r, .loaded ⟨1, genOf k⟩) := by
  obtain ⟨hcap,hcount,hloads,⟨hd,hg⟩,hfree,hgen,-,-⟩ := h
  have hvalid : plainPlugin.validate = .ok := by decide
  simp [solo, move, moveEntry, moveLoad, reserve,
    publish, duplicates, hcap, hcount, hloads, hd, hg, hfree, hvalid, loadedOne,
    refOf, hgen]

theorem loaded_slot (r : Registry) :
    (loadedOne r).slot 0 = (r.slot 0).publish plainPlugin r.published :=
  Registry.put_slot_self ({ r with loadsInflight := r.loadsInflight + 1 } : Registry) 0 _

theorem unload (h : Rested k r) : solo Registry.move (loadedOne r) (.unload ⟨1, genOf k⟩)
    [.go, .status .ok, .go] = some (unloadedOne r, .returned .ok) := by
  have hslot := loaded_slot r
  have hcap : (loadedOne r).capacity = 1 := h.capacity
  have hd : (loadedOne r).destroying = false := h.alive.1
  have hg : (loadedOne r).gone = false := h.alive.2
  have hfind : (loadedOne r).slotForRef ⟨1,genOf k⟩ = .ok 0 := by
    have hvalid : PluginRef.valid ⟨1,genOf k⟩ = true := by simp [PluginRef.valid, genOf_ne_zero]
    simp [Registry.slotForRef, hvalid, hcap, hslot, PluginSlot.publish, h.generation]
  have hfirst : (loadedOne r).unload ⟨1,genOf k⟩ =
      ((loadedOne r).put 0 ((loadedOne r).slot 0).unload,.closing 0 .unload) := by
    simp [Registry.unload, Registry.withSlot, hg, hd, hfind, hslot, PluginSlot.publish,
      PluginSlot.removable, PluginSlot.unused, Registry.beginUnload, PluginSlot.destroys,
      PluginSlot.has, plainPlugin]
  simp [solo, Registry.move, Registry.moveEntry, hfirst, Registry.moveLoad, Registry.moveSlot, unloadedOne]

theorem next (h : Rested k r) : Rested (k + 1) (unloadedOne r) := by
  have hslot := loaded_slot r
  refine ⟨h.capacity,?_,?_,h.alive,?_,?_,?_,fun _ => ?_⟩
  · show r.count+1-1 = 0
    rw [h.count]
  · show r.loadsInflight+1-1 = 0
    rw [h.loads]
  · simp [unloadedOne, clearAt, PluginSlot.clear]
  · simp [unloadedOne, clearAt, PluginSlot.clear, PluginSlot.unload, hslot,
      PluginSlot.publish, h.generation, nextGeneration_genOf]
  · simp [unloadedOne, clearAt, PluginSlot.clear, PluginSlot.unload, hslot,
      PluginSlot.publish, h.clears]
  · rcases Nat.eq_zero_or_pos k with rfl | hk
    · refine List.mem_append_right _ (List.mem_singleton.2 ?_)
      simp [refOf, h.generation, h.clears, genOf_zero]
    · exact List.mem_append_left _ (h.first hk)

theorem reached (k : Nat) : ∃ s, Reach regStep RegReady anyAction s ∧ Rested k s.shared := by
  induction k with
  | zero =>
    refine ⟨{ shared := { capacity := 1 }, threads := [] },.start ?_,?_⟩
    · exact ⟨rfl,1,by decide,by decide,rfl⟩
    · exact ⟨rfl,rfl,rfl,⟨rfl,rfl⟩,rfl,genOf_zero.symm,rfl,nofun⟩
  | succ k ih =>
    obtain ⟨s,hs,hrest⟩ := ih
    have hloaded := reach_solo hs rfl hrest.load
    exact ⟨_,reach_solo hloaded rfl hrest.unload,hrest.next⟩

end Rested

/-- An unload has closed the image of a plugin and has not cleared its slot; a load of a plugin
with the same id reads memory that compares different. -/
def loadOverClosed : List RegAction :=
  [.enter (.load true), .run 0 .go, .run 0 (.query (some plainPlugin)), .run 0 (.reads []),
    .enter (.unload ⟨1, 1⟩), .run 1 .go, .run 1 (.status .ok),
    .enter (.load true), .run 2 .go, .run 2 (.query (some plainPlugin)), .run 2 (.reads [])]

/-- Behind `2 ^ 32 - 1` reuses of its slot a stale ref unloads the plugin that is there now; and a
load that scans over a closed image publishes an id a second time. -/
theorem stale_ref_accepted :
    (∃ s x, Reach regStep RegReady anyAction s ∧ x ∈ s.shared.issued ∧
      x.clears ≠ (s.shared.slot x.index).clears ∧
      (s.shared.slot x.index).clears - x.clears ≤ 2 ^ 32 ∧
      ¬ Rejects s.shared (s.shared.unload x.ref)) ∧
    ∃ s, Reach regStep RegReady anyAction s ∧ ¬ DistinctIds s.shared := by
  constructor
  · obtain ⟨s,hs,hrest⟩ := Rested.reached (2 ^ 32 - 1)
    have hgen : genOf (2 ^ 32-1) = 1 := by decide
    have hclears : ((loadedOne s.shared).slot 0).clears = 2 ^ 32-1 := by
      exact hrest.clears
    refine ⟨_,⟨⟨1,1⟩,0,0⟩,reach_solo hs rfl hrest.load,?_,?_,?_,?_⟩
    · exact List.mem_append_left _ (hrest.first (by decide))
    · show 0 ≠ ((loadedOne s.shared).slot 0).clears
      omega
    · show ((loadedOne s.shared).slot 0).clears-0 ≤ 2 ^ 32
      omega
    · -- the unload begins
      rintro ⟨status,-,hrej⟩
      have hunload := hrest.unload
      rw [hgen] at hunload
      simp [solo, move, moveEntry, hrej, moveLoad, Registry.moveSlot] at hunload
  · obtain ⟨s,hs,h0,h1,hm0,hm1⟩ : ∃ s, Reach regStep RegReady anyAction s ∧
        (s.shared.slot 0).occupied = true ∧ (s.shared.slot 1).occupied = true ∧
          (s.shared.slot 0).manifest = some plainPlugin ∧
          (s.shared.slot 1).manifest = some plainPlugin :=
      exec_shows regStep emptyPair loadOverClosed (by decide +kernel) fun _ =>
        Reach.exec (.start emptyPair_ready) fun _ _ _ => trivial
    exact ⟨s,hs,fun hids => hids 0 1 (by decide) h0 h1 (by rw [hm0, hm1])⟩

end Salts.Plugin
