import Salts.CFlowIoActorMove
import Salts.TableSum

/-!
What holds of an I/O actor in every reachable state: the table agrees with the histories, the command
queue with the phases, and the threads hold the slots their phases say they hold.
-/

namespace Salts.CFlow

open ThreadPool Transition TableSum Relation IoActor IoSlot
open Function (update update_of_ne update_self)
open List (mem_append mem_append_left mem_cons mem_singleton not_mem_nil)

abbrev IoSystem := Config IoActor IoPoint

abbrev IoAction := Act IoPoint IoChoice

def ioStep : IoSystem → IoAction → Option IoSystem := step IoActor.move IoPoint.entry

/-- An actor behind `cflow_io_actor_init`. -/
def IoReady (s : IoSystem) : Prop :=
  ∃ requestCapacity commandCapacity wake,
    s = { shared := { requestCapacity, commandCapacity, wake }, threads := [] }

def IoSlot.weight (slot : IoSlot) : Nat := if slot.phase = .free then 0 else 1

structure IoTable (a : IoActor) : Prop where
  range : ∀ i, a.active i → i < a.requestCapacity
  ids : ∀ i, a.active i → 0 < (a.requests i).requestId ∧ (a.requests i).requestId < a.nextRequestId
  distinct : ∀ i j, a.active i → a.active j → i ≠ j →
    (a.requests i).requestId ≠ (a.requests j).requestId ∧
    (a.requests i).leaseId ≠ (a.requests j).leaseId
  count : a.activeRequests = tally weight a.requestCapacity a.requests
  next : a.accepted + 1 = a.nextRequestId ∧ a.nextRequestId < 2 ^ 64
  books : a.accepted = a.acknowledged + a.activeRequests
  course : ∀ i, a.active i →
    ∃ submitted, a.history (a.requests i).requestId = (a.requests i).course submitted
  gone : ∀ id, 0 < id → id < a.nextRequestId → (∀ i, a.active i → (a.requests i).requestId ≠ id) →
    ∃ submitted lease user c, a.history id = wholeCourse submitted lease user c
  unborn : ∀ id, id = 0 ∨ a.nextRequestId ≤ id → a.history id = []

structure IoOrder (a : IoActor) : Prop where
  queued : ∀ i, (a.requests i).phase = .admitted → .submit (a.requests i).requestId ∈ a.commands
  behind : ∀ i, (a.requests i).phase.early = true → ∀ x ∈ a.submits, x < (a.requests i).requestId
  sorted : a.submits.Pairwise (· < ·)
  submits : ∀ id, .submit ∈ a.history id ↔ id ∈ a.submits
  cancelled : ∀ id ∈ a.cancelled, id < a.nextRequestId ∧ id ∉ a.submits ∧
    ∀ i, (a.requests i).requestId = id → (a.requests i).phase.early = true → .cancel id ∈ a.commands

variable {a b t : IoActor} {i id : Nat} {slot : IoSlot} {events : List IoEvent}

namespace IoActor

theorem active_of_early (h : (a.requests i).phase.early = true) : a.active i := by
  intro hfree
  rw [hfree] at h
  cases h

theorem course_early {submitted : Bool} (h : (a.requests i).phase.early = true) :
    (a.requests i).course submitted = handed false := by
  unfold IoPhase.early at h
  split at h <;> simp_all [course]

theorem active_put_iff (h : a.active i) (hslot : slot.phase ≠ .free) (j : Nat) :
    (a.put i slot).active j ↔ a.active j := by
  by_cases hj : j = i
  · subst hj
    simp [active, hslot, show (a.requests j).phase ≠ .free from h]
  · rw [active, active, put_requests_of_ne hj]

theorem put_requestId (hid : slot.requestId = (a.requests i).requestId) (j : Nat) :
    ((a.put i slot).requests j).requestId = (a.requests j).requestId := by
  by_cases hj : j = i
  · rw [hj, put_requests_self, hid]
  · rw [put_requests_of_ne hj]

theorem put_leaseId (hlease : slot.leaseId = (a.requests i).leaseId) (j : Nat) :
    ((a.put i slot).requests j).leaseId = (a.requests j).leaseId := by
  by_cases hj : j = i
  · rw [hj, put_requests_self, hlease]
  · rw [put_requests_of_ne hj]

end IoActor

structure Touch (a t : IoActor) (i : Nat) (slot : IoSlot) (events : List IoEvent) : Prop where
  requests : t.requests = (a.put i slot).requests
  history : t.history = (a.note (a.requests i).requestId events).history
  requestCapacity : t.requestCapacity = a.requestCapacity
  activeRequests : t.activeRequests = a.activeRequests
  nextRequestId : t.nextRequestId = a.nextRequestId
  accepted : t.accepted = a.accepted
  acknowledged : t.acknowledged = a.acknowledged
  wasActive : a.active i
  isActive : slot.phase ≠ .free
  requestId : slot.requestId = (a.requests i).requestId
  leaseId : slot.leaseId = (a.requests i).leaseId
  course : ∀ submitted, a.history (a.requests i).requestId = (a.requests i).course submitted →
    ∃ submitted, a.history (a.requests i).requestId ++ events = slot.course submitted

namespace Touch

variable (h : Touch a t i slot events)
include h

theorem active (j : Nat) : t.active j ↔ a.active j := by
  rw [IoActor.active, h.requests]
  exact active_put_iff h.wasActive h.isActive j

theorem ids (j : Nat) : (t.requests j).requestId = (a.requests j).requestId := by
  rw [h.requests]
  exact put_requestId h.requestId j

theorem leases (j : Nat) : (t.requests j).leaseId = (a.requests j).leaseId := by
  rw [h.requests]
  exact put_leaseId h.leaseId j

theorem history_of_ne (hid : id ≠ (a.requests i).requestId) : t.history id = a.history id := by
  rw [h.history]
  exact update_of_ne hid ..

theorem history_self :
    t.history (a.requests i).requestId = a.history (a.requests i).requestId ++ events := by
  rw [h.history]
  exact update_self ..

theorem early_of_early (hearly : slot.phase.early = true → (a.requests i).phase.early = true)
    {j : Nat} (hj : (t.requests j).phase.early = true) : (a.requests j).phase.early = true := by
  rw [h.requests] at hj
  by_cases hji : j = i
  · subst hji
    rw [put_requests_self] at hj
    exact hearly hj
  · rw [put_requests_of_ne hji] at hj
    exact hj

theorem table (ha : IoTable a) : IoTable t where
  range := fun j hj => by
    rw [h.requestCapacity]
    exact ha.range j ((h.active j).1 hj)
  ids := fun j hj => by
    rw [h.ids, h.nextRequestId]
    exact ha.ids j ((h.active j).1 hj)
  distinct := fun j k hj hk hjk => by
    rw [h.ids, h.ids, h.leases, h.leases]
    exact ha.distinct j k ((h.active j).1 hj) ((h.active k).1 hk) hjk
  count := by
    rw [h.activeRequests, h.requestCapacity, h.requests]
    refine tally_update_eq ha.count ?_
    rw [weight, weight, if_neg h.isActive, if_neg h.wasActive]
  next := by
    rw [h.accepted, h.nextRequestId]
    exact ha.next
  books := by
    rw [h.accepted, h.acknowledged, h.activeRequests]
    exact ha.books
  course := fun j hj => by
    have hj := (h.active j).1 hj
    by_cases hji : j = i
    · subst hji
      obtain ⟨submitted,hs⟩ := ha.course j hj
      rw [h.ids, h.history_self, h.requests, put_requests_self]
      exact h.course submitted hs
    · obtain ⟨submitted,hs⟩ := ha.course j hj
      refine ⟨submitted,?_⟩
      rw [h.ids, h.history_of_ne (ha.distinct j i hj h.wasActive hji).1, hs, h.requests,
        put_requests_of_ne hji]
  gone := fun id hpos hlt hno => by
    have hne : id ≠ (a.requests i).requestId := by
      rintro rfl
      exact hno i ((h.active i).2 h.wasActive) (h.ids i)
    rw [h.history_of_ne hne]
    refine ha.gone id hpos (h.nextRequestId ▸ hlt) fun j hj => ?_
    rw [← h.ids]
    exact hno j ((h.active j).2 hj)
  unborn := fun id hid => by
    have hi := ha.ids i h.wasActive
    have hne : id ≠ (a.requests i).requestId := by
      rw [h.nextRequestId] at hid
      omega
    rw [h.history_of_ne hne]
    exact ha.unborn id (h.nextRequestId ▸ hid)

theorem order (ha : IoOrder a) (hcommands : t.commands = a.commands)
    (hsubmits : t.submits = a.submits) (hcancelled : t.cancelled = a.cancelled)
    (hevents : .submit ∉ events)
    (hearly : slot.phase.early = true → (a.requests i).phase.early = true)
    (hadmitted : slot.phase = .admitted → (a.requests i).phase = .admitted) : IoOrder t where
  queued := fun j hj => by
    rw [h.ids, hcommands]
    rw [h.requests] at hj
    by_cases hji : j = i
    · subst hji
      rw [put_requests_self] at hj
      exact ha.queued j (hadmitted hj)
    · rw [put_requests_of_ne hji] at hj
      exact ha.queued j hj
  behind := fun j hj => by
    rw [h.ids, hsubmits]
    exact ha.behind j (h.early_of_early hearly hj)
  sorted := hsubmits ▸ ha.sorted
  submits := fun id => by
    rw [hsubmits, ← ha.submits]
    by_cases hid : id = (a.requests i).requestId
    · rw [hid, h.history_self, mem_append, or_iff_left hevents]
    · rw [h.history_of_ne hid]
  cancelled := fun id hid => by
    rw [hcancelled] at hid
    rw [h.nextRequestId, hsubmits, hcommands]
    obtain ⟨hlt,hno,hearlier⟩ := ha.cancelled id hid
    refine ⟨hlt,hno,fun j hj hje => hearlier j ?_ (h.early_of_early hearly hje)⟩
    rw [← h.ids, hj]

end Touch

namespace IoActor

section Admit

variable (a : IoActor) (lease : Nat) (operation : IoOperation)

theorem admitAt_self (i : Nat) : (a.admitAt i lease operation).requests i =
    { requestId := a.nextRequestId, leaseId := lease, phase := .admitted, operation := operation } :=
  put_requests_self ..

theorem admitAt_of_ne {j : Nat} (hj : j ≠ i) :
    (a.admitAt i lease operation).requests j = a.requests j :=
  put_requests_of_ne hj

end Admit

@[simp] theorem note_nil (a : IoActor) (id : Nat) : a.note id [] = a := by
  simp [note]

theorem touch_completeAt (c : IoCompletion)
    (h : (a.requests i).phase.early = true ∨ (a.requests i).phase = .backendPending) :
    Touch a (a.completeAt i c) i { a.requests i with completion := c, phase := .completed }
      [.complete c] := by
  refine ⟨rfl,rfl,rfl,rfl,rfl,rfl,rfl,?_,by simp,rfl,rfl,fun submitted hs => ?_⟩
  · exact h.elim active_of_early fun hpending => by simp [active, hpending]
  rcases h with hearly | hpending
  · refine ⟨false,?_⟩
    rw [hs, course_early hearly]
    rfl
  · refine ⟨true,?_⟩
    rw [hs, course, hpending]
    rfl

theorem touch_setPhase (phase : IoPhase) (events : List IoEvent) (hwas : a.active i)
    (his : phase ≠ .free)
    (hcourse : ∀ submitted, ∃ submitted', (a.requests i).course submitted ++ events =
      ({ a.requests i with phase := phase } : IoSlot).course submitted') :
    Touch a ((a.setPhase i phase).note (a.requests i).requestId events) i
      { a.requests i with phase := phase } events :=
  ⟨rfl,rfl,rfl,rfl,rfl,rfl,rfl,hwas,his,rfl,rfl,fun submitted hs => hs ▸ hcourse submitted⟩

theorem touch_flags (requested dispatched : Bool) (h : (a.requests i).phase = .backendPending) :
    Touch a (a.put i { a.requests i with
      cancelRequested := requested
      cancelDispatched := dispatched }) i { a.requests i with
      cancelRequested := requested
      cancelDispatched := dispatched } [] :=
  ⟨rfl,by simp [put],rfl,rfl,rfl,rfl,rfl,by simp [active, h],by simp [h],rfl,rfl,
    fun submitted hs => ⟨submitted,by rw [List.append_nil, hs]; rfl⟩⟩

end IoActor

namespace IoTable

theorem of_eq (h : IoTable a) (hrequests : t.requests = a.requests)
    (hhistory : t.history = a.history) (hcapacity : t.requestCapacity = a.requestCapacity)
    (hactive : t.activeRequests = a.activeRequests) (hnext : t.nextRequestId = a.nextRequestId)
    (haccepted : t.accepted = a.accepted) (hacknowledged : t.acknowledged = a.acknowledged) :
    IoTable t := by
  constructor <;>
    simp only [active, hrequests, hhistory, hcapacity, hactive, hnext, haccepted, hacknowledged]
  · exact h.range
  · exact h.ids
  · exact h.distinct
  · exact h.count
  · exact h.next
  · exact h.books
  · exact h.course
  · exact h.gone
  · exact h.unborn

theorem find (h : IoTable a) (hi : a.active i) : a.find (a.requests i).requestId = some i := by
  rcases hk : a.find (a.requests i).requestId with _ | k
  · have := List.find?_eq_none.1 hk i (List.mem_range.2 (h.range i hi))
    simp [show (a.requests i).phase ≠ .free from hi] at this
  · obtain ⟨-,hactive,hid⟩ := find_some hk
    by_contra hne
    exact (h.distinct k i hactive hi fun hki => hne (congrArg some hki)).1 hid

theorem admitted (h : IoTable a) {lease : Nat} (operation : IoOperation) (hi : i < a.requestCapacity)
    (hfree : (a.requests i).phase = .free)
    (hlease : ∀ j < a.requestCapacity, a.active j → (a.requests j).leaseId ≠ lease)
    (hnext : a.nextRequestId ≠ 2 ^ 64 - 1) : IoTable (a.admitAt i lease operation) := by
  have hself := a.admitAt_self lease operation i
  have hother := fun j (hj : j ≠ i) => a.admitAt_of_ne lease operation hj
  have hold : ∀ j, j ≠ i → (a.admitAt i lease operation).active j → a.active j := by
    intro j hj hactive
    rwa [active, hother j hj] at hactive
  have hhistory : ∀ id, id ≠ a.nextRequestId →
      (a.admitAt i lease operation).history id = a.history id :=
    fun id hid => update_of_ne hid ..
  obtain ⟨haccepted,hbound⟩ := h.next
  have hincrement : ioIncrement a.accepted = a.accepted+1 := if_pos (by omega)
  constructor
  case range =>
    intro j hj
    by_cases hji : j = i
    · exact hji ▸ hi
    · exact h.range j (hold j hji hj)
  case ids =>
    intro j hj
    show _ ∧ _ < a.nextRequestId+1
    by_cases hji : j = i
    · rw [hji, hself]
      exact ⟨by show 0 < a.nextRequestId; omega,Nat.lt_succ_self _⟩
    · rw [hother j hji]
      obtain ⟨hpos,hlt⟩ := h.ids j (hold j hji hj)
      exact ⟨hpos,by omega⟩
  case distinct =>
    -- the new id is larger than the others and the lease is not in use
    have hnew : ∀ j, j ≠ i → (a.admitAt i lease operation).active j →
        (a.requests j).requestId ≠ a.nextRequestId ∧ (a.requests j).leaseId ≠ lease := by
      intro j hj hactive
      have hactive := hold j hj hactive
      exact ⟨(h.ids j hactive).2.ne,hlease j (h.range j hactive) hactive⟩
    intro j k hj hk hjk
    by_cases hji : j = i
    · have hki : k ≠ i := fun hki => hjk (hji.trans hki.symm)
      rw [hji, hself, hother k hki]
      exact ⟨(hnew k hki hk).1.symm,(hnew k hki hk).2.symm⟩
    · rw [hother j hji]
      by_cases hki : k = i
      · rw [hki, hself]
        exact hnew j hji hj
      · rw [hother k hki]
        exact h.distinct j k (hold j hji hj) (hold k hki hk) hjk
  case count =>
    refine tally_update_succ h.count hi ?_
    rw [weight, weight, if_pos hfree]
    rfl
  case next =>
    show ioIncrement a.accepted+1 = a.nextRequestId+1 ∧ a.nextRequestId+1 < 2 ^ 64
    omega
  case books =>
    show ioIncrement a.accepted = a.acknowledged+(a.activeRequests+1)
    have := h.books
    omega
  case course =>
    intro j hj
    by_cases hji : j = i
    · refine ⟨false,?_⟩
      rw [hji, hself]
      show update a.history a.nextRequestId (a.history a.nextRequestId ++ [.accept])
        a.nextRequestId = _
      rw [update_self, h.unborn _ (.inr le_rfl)]
      rfl
    · have hj := hold j hji hj
      rw [hother j hji, hhistory _ (h.ids j hj).2.ne]
      exact h.course j hj
  case gone =>
    intro id hpos hlt hno
    have hlt : id < a.nextRequestId+1 := hlt
    have hne : id ≠ a.nextRequestId := by
      rintro rfl
      refine hno i ?_ ?_
      · rw [active, hself]
        exact fun hc => by cases hc
      · rw [hself]
    rw [hhistory id hne]
    refine h.gone id hpos (by omega) fun j hj => ?_
    have hji : j ≠ i := fun hji => hj (hji ▸ hfree)
    have := hno j (by rw [active, hother j hji]; exact hj)
    rwa [hother j hji] at this
  case unborn =>
    intro id hid
    have hid : id = 0 ∨ a.nextRequestId+1 ≤ id := hid
    rw [hhistory id (by omega)]
    exact h.unborn id (by omega)

theorem free (h : IoTable a) (hphase : (a.requests i).phase = .releasing) :
    IoTable { a.put i {} with
      activeRequests := a.activeRequests - 1
      acknowledged := ioIncrement a.acknowledged } := by
  have hi : a.active i := by simp [active, hphase]
  have hlt := h.range i hi
  have hother : ∀ j, (a.put i {}).active j → j ≠ i ∧ a.active j := by
    intro j hj
    have hji : j ≠ i := by
      rintro rfl
      rw [active, put_requests_self] at hj
      exact hj rfl
    rw [active, put_requests_of_ne hji] at hj
    exact ⟨hji,hj⟩
  have hweight : (a.requests i).weight = 1 := if_neg hi
  have hpos : 1 ≤ a.activeRequests := by
    rw [h.count, ← hweight]
    exact weight_le_tally hlt
  have hbooks := h.books
  obtain ⟨haccepted,hbound⟩ := h.next
  have hincrement : ioIncrement a.acknowledged = a.acknowledged+1 := if_pos (by omega)
  constructor
  case range => exact fun j hj => h.range j (hother j hj).2
  case ids =>
    intro j hj
    obtain ⟨hji,hj⟩ := hother j hj
    rw [put_requests_of_ne hji]
    exact h.ids j hj
  case distinct =>
    intro j k hj hk hjk
    obtain ⟨hji,hj⟩ := hother j hj
    obtain ⟨hki,hk⟩ := hother k hk
    rw [put_requests_of_ne hji, put_requests_of_ne hki]
    exact h.distinct j k hj hk hjk
  case count =>
    refine tally_update_pred h.count hlt ?_
    rw [hweight]
    rfl
  case next => exact h.next
  case books =>
    show a.accepted = ioIncrement a.acknowledged+(a.activeRequests-1)
    omega
  case course =>
    intro j hj
    obtain ⟨hji,hj⟩ := hother j hj
    rw [put_requests_of_ne hji]
    exact h.course j hj
  case gone =>
    -- the request that leaves the table has its whole course behind it
    intro id hpos hid hno
    by_cases hne : id = (a.requests i).requestId
    · obtain ⟨submitted,hs⟩ := h.course i hi
      refine ⟨submitted,(a.requests i).leaseId,(a.requests i).operation.user,
        (a.requests i).completion,?_⟩
      rw [hne]
      refine hs.trans ?_
      rw [IoSlot.course, hphase]
    · refine h.gone id hpos hid fun j hj => ?_
      by_cases hji : j = i
      · rw [hji]
        exact Ne.symm hne
      · have hstays : (a.put i {}).requests j = a.requests j := put_requests_of_ne hji
        have hactive : (a.put i {}).active j := by rwa [active, hstays]
        exact hstays ▸ hno j hactive
  case unborn => exact h.unborn

end IoTable

namespace IoOrder

section

variable (h : IoOrder a)

include h

theorem of_eq (hrequests : t.requests = a.requests) (hhistory : t.history = a.history)
    (hnext : t.nextRequestId = a.nextRequestId) (hcommands : t.commands = a.commands)
    (hsubmits : t.submits = a.submits) (hcancelled : t.cancelled = a.cancelled) : IoOrder t := by
  constructor <;> simp [hrequests, hhistory, hnext, hcommands, hsubmits, hcancelled]
  · exact h.queued
  · exact h.behind
  · exact h.sorted
  · exact h.submits
  · exact h.cancelled

theorem not_mem_submits (hi : (a.requests i).phase.early = true) :
    (a.requests i).requestId ∉ a.submits :=
  fun hmem => lt_irrefl _ (h.behind i hi _ hmem)

theorem lt_next_of_mem (ht : IoTable a) (hid : id ∈ a.submits) : id < a.nextRequestId := by
  by_contra hle
  have := (h.submits id).2 hid
  rw [ht.unborn id (.inr (not_lt.1 hle))] at this
  cases this

theorem admitted (ht : IoTable a) (lease : Nat) (operation : IoOperation) :
    IoOrder (a.admitAt i lease operation) := by
  have hself := a.admitAt_self lease operation i
  have hother := fun j (hj : j ≠ i) => a.admitAt_of_ne lease operation hj
  constructor
  case queued =>
    intro j hj
    by_cases hji : j = i
    · rw [hji, hself]
      exact List.mem_append_right _ (mem_singleton.2 rfl)
    · rw [hother j hji] at hj ⊢
      exact mem_append_left _ (h.queued j hj)
  case behind =>
    intro j hj x hx
    by_cases hji : j = i
    · rw [hji, hself]
      exact h.lt_next_of_mem ht hx
    · rw [hother j hji] at hj ⊢
      exact h.behind j hj x hx
  case sorted => exact h.sorted
  case submits =>
    intro id
    show .submit ∈ update a.history a.nextRequestId (a.history a.nextRequestId ++ [.accept])
      id ↔ id ∈ a.submits
    by_cases hid : id = a.nextRequestId
    · rw [hid, ← h.submits]
      simp
    · rw [update_of_ne hid]
      exact h.submits id
  case cancelled =>
    intro id hid
    obtain ⟨hlt,hno,hearly⟩ := h.cancelled id hid
    refine ⟨Nat.lt_succ_of_lt hlt,hno,fun j hj hje => ?_⟩
    by_cases hji : j = i
    · rw [hji, hself] at hj
      exact absurd hj hlt.ne'
    · rw [hother j hji] at hj hje
      exact mem_append_left _ (hearly j hj hje)

theorem cancel (ht : IoTable a) (hi : a.active i) :
    IoOrder { a with
      commands := a.commands ++ [.cancel (a.requests i).requestId]
      cancelled := if (a.requests i).phase.early then
        a.cancelled ++ [(a.requests i).requestId] else a.cancelled } := by
  have hold : ∀ id ∈ a.cancelled, id < a.nextRequestId ∧ id ∉ a.submits ∧
      ∀ j, (a.requests j).requestId = id → (a.requests j).phase.early = true →
        .cancel id ∈ a.commands ++ [.cancel (a.requests i).requestId] := by
    intro id hid
    obtain ⟨hlt,hno,hearly⟩ := h.cancelled id hid
    exact ⟨hlt,hno,fun j hj hje => mem_append_left _ (hearly j hj hje)⟩
  refine ⟨fun j hj => mem_append_left _ (h.queued j hj),h.behind,h.sorted,h.submits,?_⟩
  intro id hid
  split_ifs at hid with hearly
  · rcases mem_append.1 hid with hid | hid
    · exact hold id hid
    · obtain rfl := mem_singleton.1 hid
      exact ⟨(ht.ids i hi).2,h.not_mem_submits hearly,
        fun _ _ _ => List.mem_append_right _ (mem_singleton.2 rfl)⟩
  · exact hold id hid

theorem pop (ht : IoTable a) {command : IoCommand} {rest : List IoCommand}
    (hc : a.commands = command :: rest)
    (hsubmit : ∀ id i, command = .submit id → a.find id = some i → (a.requests i).phase ≠ .admitted)
    (hcancel : ∀ id i, command = .cancel id → a.find id = some i →
      (a.requests i).phase.early = false) : IoOrder { a with commands := rest } := by
  refine ⟨fun j hj => ?_,h.behind,h.sorted,h.submits,fun id hid => ?_⟩
  · have hmem := h.queued j hj
    rw [hc] at hmem
    rcases mem_cons.1 hmem with heq | hmem
    · exact absurd hj (hsubmit _ j heq.symm (ht.find (active_of_early (by rw [hj]; rfl))))
    · exact hmem
  · obtain ⟨hlt,hno,hearly⟩ := h.cancelled id hid
    refine ⟨hlt,hno,fun j hj hje => ?_⟩
    have hmem := hearly j hj hje
    rw [hc] at hmem
    rcases mem_cons.1 hmem with heq | hmem
    · have := hcancel _ j heq.symm (hj ▸ ht.find (active_of_early hje))
      rw [hje] at this
      cases this
    · exact hmem

end

/-- With an empty queue every waiting request is ready, so the smallest id is the next one, and none
of the requests that were cancelled early is waiting. -/
theorem handOver (h : IoOrder a) (ht : IoTable a) (hc : a.commands = [])
    (hready : (a.requests i).phase = .ready)
    (hfirst : ∀ j < a.requestCapacity, (a.requests j).phase = .ready →
      (a.requests i).requestId ≤ (a.requests j).requestId) : IoOrder (a.handOver i) := by
  have hearly : (a.requests i).phase.early = true := by rw [hready]; rfl
  have hi := active_of_early hearly
  have hself : (a.handOver i).requests i = { a.requests i with phase := .backendPending } :=
    put_requests_self ..
  have hother : ∀ j, j ≠ i → (a.handOver i).requests j = a.requests j :=
    fun j hj => put_requests_of_ne hj
  have hearlier : ∀ j, ((a.handOver i).requests j).phase.early = true →
      j ≠ i ∧ (a.requests j).phase.early = true := by
    intro j hj
    have hji : j ≠ i := by
      rintro rfl
      rw [hself] at hj
      cases hj
    exact ⟨hji,hother j hji ▸ hj⟩
  have hadmitted : ∀ j, (a.requests j).phase ≠ .admitted := by
    intro j hj
    have := h.queued j hj
    rw [hc] at this
    cases this
  constructor
  case queued =>
    intro j hj
    obtain ⟨hji,-⟩ := hearlier j (by rw [hj]; rfl)
    rw [hother j hji] at hj
    exact absurd hj (hadmitted j)
  case behind =>
    intro j hj x hx
    obtain ⟨hji,hje⟩ := hearlier j hj
    rw [hother j hji]
    rcases mem_append.1 hx with hx | hx
    · exact h.behind j hje x hx
    obtain rfl := mem_singleton.1 hx
    have hj := active_of_early hje
    have hjready : (a.requests j).phase = .ready := by
      unfold IoPhase.early at hje
      split at hje <;> simp_all
    exact lt_of_le_of_ne (hfirst j (ht.range j hj) hjready)
      (ht.distinct i j hi hj (Ne.symm hji)).1
  case sorted =>
    refine List.pairwise_append.2 ⟨h.sorted,List.pairwise_singleton ..,fun x hx y hy => ?_⟩
    rw [mem_singleton.1 hy]
    exact h.behind i hearly x hx
  case submits =>
    intro id
    show .submit ∈ update a.history (a.requests i).requestId
      (a.history (a.requests i).requestId ++ [.submit]) id ↔
      id ∈ a.submits ++ [(a.requests i).requestId]
    rw [mem_append, mem_singleton]
    by_cases hid : id = (a.requests i).requestId
    · rw [hid]
      simp
    · rw [update_of_ne hid, h.submits, or_iff_left hid]
  case cancelled =>
    intro id hid
    obtain ⟨hlt,hno,hwaits⟩ := h.cancelled id hid
    have hne : id ≠ (a.requests i).requestId := by
      intro heq
      have := hwaits i heq.symm hearly
      rw [hc] at this
      cases this
    refine ⟨hlt,?_,fun j hj hje => ?_⟩
    · show id ∉ a.submits ++ [(a.requests i).requestId]
      rw [mem_append, mem_singleton]
      rintro (hmem | heq)
      · exact hno hmem
      · exact hne heq
    · obtain ⟨hji,hje⟩ := hearlier j hje
      rw [hother j hji] at hj
      exact hwaits j hj hje

theorem free (h : IoOrder a) (n m : Nat) : IoOrder { a.put i {} with
    activeRequests := n
    acknowledged := m } := by
  have hearly : ∀ j, ((a.put i {}).requests j).phase.early = true →
      (a.put i {}).requests j = a.requests j := by
    intro j hj
    have hji : j ≠ i := by
      rintro rfl
      rw [put_requests_self] at hj
      cases hj
    exact put_requests_of_ne hji
  refine ⟨fun j hj => ?_,fun j hj x hx => ?_,h.sorted,h.submits,fun id hid => ?_⟩
  · have hsame := hearly j (by rw [hj]; rfl)
    rw [hsame] at hj ⊢
    exact h.queued j hj
  · have hsame := hearly j hj
    rw [hsame] at hj ⊢
    exact h.behind j hj x hx
  · obtain ⟨hlt,hno,hwaits⟩ := h.cancelled id hid
    refine ⟨hlt,hno,fun j hj hje => ?_⟩
    have hsame := hearly j hje
    rw [hsame] at hj hje
    exact hwaits j hj hje

theorem close (h : IoOrder a) (ht : IoTable a) (hphase : (a.requests i).phase.early = true) :
    IoOrder { a.completeAt i .cancelled with
      cancelled := a.cancelled ++ [(a.requests i).requestId] } := by
  have htouch := touch_completeAt .cancelled (.inl hphase)
  have hi := active_of_early hphase
  have hdone := htouch.order h rfl rfl rfl (by simp) (fun hc => by cases hc) fun hc => by cases hc
  refine ⟨hdone.queued,hdone.behind,hdone.sorted,hdone.submits,fun id hid => ?_⟩
  rcases mem_append.1 hid with hid | hid
  · exact hdone.cancelled id hid
  obtain rfl := mem_singleton.1 hid
  refine ⟨(ht.ids i hi).2,h.not_mem_submits hphase,fun j hj hje => ?_⟩
  by_cases hji : j = i
  · subst hji
    have : IoPhase.completed.early = true := by
      simpa [completeAt, note] using hje
    cases this
  · rw [htouch.ids] at hj
    have hje := htouch.early_of_early (fun hc => by cases hc) hje
    exact absurd hj (ht.distinct j i (active_of_early hje) hi hji).1

end IoOrder

structure IoCore (a : IoActor) : Prop where
  table : IoTable a
  order : IoOrder a

namespace IoCore

section

variable (h : IoCore a)

include h

theorem aside (ht : Aside a t) : IoCore t where
  table := h.table.of_eq ht.requests ht.history ht.requestCapacity ht.activeRequests
    ht.nextRequestId ht.accepted ht.acknowledged
  order := h.order.of_eq ht.requests ht.history ht.nextRequestId ht.commands ht.submits ht.cancelled

theorem later (phase : IoPhase) (events : List IoEvent) (hwas : a.active i)
    (his : phase ≠ .free) (hearly : phase.early = false) (hevents : .submit ∉ events)
    (hcourse : ∀ submitted, ∃ submitted', (a.requests i).course submitted ++ events =
      ({ a.requests i with phase := phase } : IoSlot).course submitted') :
    IoCore ((a.setPhase i phase).note (a.requests i).requestId events) := by
  have htouch := touch_setPhase phase events hwas his hcourse
  refine ⟨htouch.table h.table,htouch.order h.order rfl rfl rfl hevents (fun hc => ?_) fun hc => ?_⟩
  · rw [show phase.early = true from hc] at hearly
    cases hearly
  · rw [show phase = .admitted from hc] at hearly
    cases hearly

theorem change (hb : IoChange a b) : IoCore b := by
  cases hb with
  | admitted i lease operation hi hfree hlease hnext =>
    exact ⟨h.table.admitted operation hi hfree hlease hnext,h.order.admitted h.table lease operation⟩
  | cancel i hi =>
    exact ⟨h.table.of_eq rfl rfl rfl rfl rfl rfl rfl,h.order.cancel h.table hi⟩
  | complete i c hphase =>
    have htouch := touch_completeAt c hphase
    exact ⟨htouch.table h.table,htouch.order h.order rfl rfl rfl (by simp)
      (fun hc => by cases hc) fun hc => by cases hc⟩
  | ready i hphase =>
    have hi : a.active i := active_of_early (by rw [hphase]; rfl)
    have htouch := touch_setPhase .ready [] hi (by simp)
      fun submitted => ⟨false,by simp [course, hphase]⟩
    rw [note_nil] at htouch
    exact ⟨htouch.table h.table,htouch.order h.order rfl rfl rfl not_mem_nil
      (fun _ => by rw [hphase]; rfl) fun hc => by cases hc⟩
  | flags i requested dispatched hphase =>
    have htouch := touch_flags requested dispatched hphase
    exact ⟨htouch.table h.table,htouch.order h.order rfl rfl rfl not_mem_nil id id⟩
  | pop command rest hc hsubmit hcancel =>
    exact ⟨h.table.of_eq rfl rfl rfl rfl rfl rfl rfl,h.order.pop h.table hc hsubmit hcancel⟩
  | handOver i hc hready hfirst =>
    have hi : a.active i := active_of_early (by rw [hready]; rfl)
    have htouch := touch_setPhase .backendPending [.submit] hi
      (by simp) fun submitted => ⟨true,by simp [course, hready, handed]⟩
    exact ⟨(htouch.table h.table).of_eq rfl rfl rfl rfl rfl rfl rfl,
      h.order.handOver h.table hc hready hfirst⟩
  | take id =>
    exact ⟨h.table.of_eq rfl rfl rfl rfl rfl rfl rfl,h.order.of_eq rfl rfl rfl rfl rfl rfl⟩
  | queue i hphase | unqueue i hphase =>
    rw [← note_nil (a.setPhase i _) (a.requests i).requestId]
    exact h.later _ _ (by simp [active, hphase]) (by simp) rfl not_mem_nil
      fun submitted => ⟨submitted,by simp [course, hphase]⟩
  | start i hphase | deliver i hphase | acknowledge i hphase =>
    exact h.later _ _ (by simp [active, hphase]) (by simp) rfl (by simp)
      fun submitted => ⟨submitted,by simp [course, wholeCourse, hphase]⟩
  | free i hphase => exact ⟨h.table.free hphase,h.order.free _ _⟩
  | close i hphase =>
    have htouch := touch_completeAt .cancelled (.inl hphase)
    exact ⟨(htouch.table h.table).of_eq rfl rfl rfl rfl rfl rfl rfl,h.order.close h.table hphase⟩

theorem changes (hb : ReflTransGen IoChange a b) : IoCore b := by
  induction hb with
  | refl => exact h
  | tail _ hc ih => exact ih.change hc

theorem born (hid : id ∈ a.submits) : 0 < id ∧ id < a.nextRequestId := by
  refine ⟨Nat.pos_of_ne_zero fun hzero => ?_,h.order.lt_next_of_mem h.table hid⟩
  have := (h.order.submits id).2 hid
  rw [h.table.unborn id (.inl hzero)] at this
  cases this

theorem pending_or_completed (hid : id ∈ a.submits) :
    (∃ i, a.find id = some i ∧ (a.requests i).phase = .backendPending) ∨
    ∃ c, .complete c ∈ a.history id := by
  by_cases hactive : ∃ i, a.active i ∧ (a.requests i).requestId = id
  · obtain ⟨i,hi,rfl⟩ := hactive
    have hsubmit := (h.order.submits _).2 hid
    obtain ⟨submitted,hcourse⟩ := h.table.course i hi
    rw [hcourse] at hsubmit ⊢
    cases hphase : (a.requests i).phase with
    | free => exact absurd hphase hi
    | admitted | ready => simp [course, hphase, handed] at hsubmit
    | backendPending => exact .inl ⟨i,h.table.find hi,hphase⟩
    | _ => exact .inr ⟨(a.requests i).completion,by simp [course, hphase, wholeCourse]⟩
  · obtain ⟨hpos,hlt⟩ := h.born hid
    obtain ⟨submitted,lease,user,c,hgone⟩ := h.table.gone id hpos hlt
      fun i hi hid => hactive ⟨i,hi,hid⟩
    exact .inr ⟨c,by simp [hgone, wholeCourse]⟩

end

end IoCore

/-- The backend accepted the submit of a request, or the request is completed. -/
def IoActor.Answered (a : IoActor) (id : Nat) : Prop :=
  id ∈ a.taken ∨ ∃ c, .complete c ∈ a.history id

namespace IoActor

theorem mem_note {e : IoEvent} {k : Nat} (h : e ∈ a.history id) :
    e ∈ (a.note k events).history id := by
  unfold note
  by_cases hid : id = k
  · subst hid
    simp [h]
  · simpa [update_of_ne hid] using h

theorem Answered.of_change (h : a.Answered id) (hb : IoChange a b) : b.Answered id := by
  have hkeeps : (∀ x ∈ a.taken, x ∈ b.taken) ∧ ∀ e ∈ a.history id, e ∈ b.history id := by
    cases hb with
    | take => exact ⟨fun x hx => mem_append_left _ hx,fun e he => he⟩
    | cancel | ready | flags | pop | queue | unqueue | free =>
      exact ⟨fun x hx => hx,fun e he => he⟩
    | _ => exact ⟨fun x hx => hx,fun e he => mem_note he⟩
  rcases h with htaken | ⟨c,hc⟩
  · exact .inl (hkeeps.1 id htaken)
  · exact .inr ⟨c,hkeeps.2 _ hc⟩

theorem Answered.of_changes (h : a.Answered id) (hb : ReflTransGen IoChange a b) :
    b.Answered id := by
  induction hb with
  | refl => exact h
  | tail _ hc ih => exact ih.of_change hc

/-- Behind the backend's answer a request is with the backend or completed, with a refusal too. -/
theorem answered_submitted (h : IoCore a) (hid : id ∈ a.submits) (maxSteps n : Nat) (status : Int) :
    (a.submitted maxSteps n id status).1.Answered id := by
  unfold submitted
  split
  · exact .inl (by simp)
  dsimp only
  -- the search does not read the counters
  have hfind : ∀ counters, ({ a with counters := counters } : IoActor).find id = a.find id :=
    fun _ => rfl
  rw [hfind]
  rcases h.pending_or_completed hid with ⟨i,hi,hphase⟩ | hc
  · rw [hi]
    dsimp only
    rw [if_neg (not_not.2 hphase)]
    obtain ⟨-,-,rfl⟩ := find_some hi
    exact .inr ⟨{ kind := .failed, error := status },by simp [completeAt, note]⟩
  · obtain ⟨c,hc⟩ := hc
    split
    · exact .inr ⟨c,hc⟩
    · split_ifs
      · exact .inr ⟨c,hc⟩
      · exact .inr ⟨c,mem_note hc⟩

theorem answered_move {p : IoPoint} {ch : IoChoice} {m : Move} (h : IoCore a)
    (hm : a.move p ch = some m) (hp : p.asks = some id) (hid : id ∈ a.submits) :
    m.1.Answered id := by
  unfold IoPoint.asks at hp
  split at hp <;> cases hp
  cases ch with
  | status status =>
    cases hm
    exact answered_submitted h hid _ _ status
  | go | admission => cases hm

end IoActor

structure IoInv (s : IoSystem) : Prop where
  core : IoCore s.shared
  held : ∀ g i, s.shared.holds g i = load (IoPoint.holdsAt g i) s.threads
  driver : s.shared.driverActive.toNat = load IoPoint.drives s.threads
  credit : s.shared.callbacksInflight = load IoPoint.credit s.threads
  asked : ∀ id ∈ s.shared.submits, s.shared.Answered id ∨ ∃ p ∈ s.threads, p.asks = some id

namespace IoInv

variable {s : IoSystem}

theorem ready (h : IoReady s) : IoInv s := by
  obtain ⟨requestCapacity,commandCapacity,wake,rfl⟩ := h
  refine ⟨⟨?_,?_⟩,fun g i => rfl,rfl,rfl,fun id hid => absurd hid not_mem_nil⟩
  · refine ⟨fun i hi => absurd rfl hi,fun i hi => absurd rfl hi,fun i _ hi => absurd rfl hi,?_,?_,
      rfl,fun i hi => absurd rfl hi,fun id hpos hlt _ => ?_,fun _ _ => rfl⟩
    · exact (Finset.sum_eq_zero fun _ _ => rfl).symm
    · exact ⟨rfl,show 1 < 2 ^ 64 by decide⟩
    · have hlt : id < 1 := hlt
      omega
  · exact ⟨fun i hi => (by cases hi),fun i hi => (by cases hi),.nil,
      fun id => ⟨fun hm => absurd hm not_mem_nil,fun hm => absurd hm not_mem_nil⟩,
      fun id hid => absurd hid not_mem_nil⟩

theorem move (h : IoInv s) {n : Nat} {p q : IoPoint} {new : List IoPoint}
    (hp : s.threads[n]? = some p) (hm : IoMove s.shared p t q new)
    (hanswered : ∀ id ∈ s.shared.submits, p.asks = some id → t.Answered id) :
    IoInv { shared := t, threads := s.threads.set n q ++ new } := by
  have hmem := List.mem_of_getElem? hp
  have hholds : ∀ g i, p.holdsAt g i ≤ s.shared.holds g i := by
    intro g i
    rw [h.held]
    exact weight_le_load hmem
  have hdrives : p.drives ≤ s.shared.driverActive.toNat := h.driver ▸ weight_le_load hmem
  have hcredit : p.credit ≤ s.shared.callbacksInflight := h.credit ▸ weight_le_load hmem
  obtain ⟨b,hb,ht⟩ := hm.change
  refine ⟨(h.core.changes hb).aside ht,
    fun g i => balanced_move (f := fun a : IoActor => a.holds g i) (h.held g i) hp (hm.holds hholds g i),
    balanced_move h.driver hp (hm.driver hdrives),
    balanced_move h.credit hp (hm.credit hcredit),fun id hid => ?_⟩
  rw [hm.submits, IoPoint.mem_hands] at hid
  rcases hid with hid | hq
  · rcases h.asked id hid with hold | ⟨r,hr,hrid⟩
    · have hb := hold.of_changes hb
      rw [Answered, ← ht.taken, ← ht.history] at hb
      exact .inl hb
    · by_cases hrp : r = p
      · exact .inl (hanswered id hid (hrp ▸ hrid))
      · exact .inr ⟨r,mem_stays hr hp hrp,hrid⟩
  · exact .inr ⟨q,mem_moved hp,hq⟩

theorem enter (h : IoInv s) {p : IoPoint} (hp : p.entry = true) :
    IoInv { shared := s.shared, threads := s.threads ++ [p] } := by
  have hidle : p.holding = none ∧ p.drives = 0 ∧ p.credit = 0 := by
    unfold IoPoint.entry at hp
    split at hp <;> first | exact ⟨rfl,rfl,rfl⟩ | cases hp
  obtain ⟨hholding,hdrives,hcredit⟩ := hidle
  refine ⟨h.core,fun g i => ?_,?_,?_,fun id hid => (h.asked id hid).imp_right ?_⟩
  · rw [load_enter _ (by rw [IoPoint.holdsAt, hholding]; rfl)]
    exact h.held g i
  · rw [load_enter _ hdrives]
    exact h.driver
  · rw [load_enter _ hcredit]
    exact h.credit
  · rintro ⟨r,hr,hrid⟩
    exact ⟨r,mem_append_left _ hr,hrid⟩

theorem step {u : IoSystem} {act : IoAction} (h : IoInv s) (hs : ioStep s act = some u) :
    IoInv u := by
  rcases step_cases hs with ⟨n,c,p,t,q,new,rfl,hp,hm,rfl⟩ | ⟨p,rfl,hp,rfl⟩
  · exact h.move hp (IoMove.of_move hm) fun id hid hasks => answered_move h.core hm hasks hid
  · exact h.enter hp

theorem reach {ok : IoSystem → IoAction → Prop} (hs : Reach ioStep IoReady ok s) : IoInv s :=
  hs.invariant (fun _ => ready) fun _ _ _ h _ => h.step

end IoInv

end Salts.CFlow
