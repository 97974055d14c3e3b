import Salts.CFlowIoActorInv

/-!
What an I/O actor guarantees in every interleaving: each accepted request is completed, called back,
acknowledged and released once and in this order, leases are exclusive, and the backend sees the
requests in the order of their ids and none that was cancelled before.
-/

namespace Salts.CFlow

open ThreadPool Transition TableSum IoActor

variable {s : IoSystem} {a : IoActor} {i id : Nat}

/-- Who takes the request of a slot to its next event: the command queue, the driver, the backend
that accepted it or is asked to, a task of the executor, the acknowledger. -/
def IoCarried (s : IoSystem) (i : Nat) : Prop :=
  let a := s.shared
  let slot := a.requests i
  match slot.phase with
  | .free => True
  | .admitted => .submit slot.requestId ∈ a.commands
  | .ready | .completed => ∀ maxSteps n, (a.plan maxSteps n).2.1 ≠ .leave n
  | .backendPending =>
    (slot.requestId ∈ a.taken ∨ ∃ p ∈ s.threads, p.asks = some slot.requestId) ∧
      ∀ c, c.valid = true → (a.complete slot.requestId c).1.history slot.requestId =
        a.history slot.requestId ++ [.complete c]
  | .dispatchQueued => ∃ p ∈ s.threads, p.holding = some (.queue, i)
  | .dispatchRunning => .delivering i ∈ s.threads
  | .delivered => (a.acknowledge slot.requestId).2.1 = .releasing i slot.requestId
  | .releasing => .releasing i slot.requestId ∈ s.threads

structure IoSafe (s : IoSystem) : Prop where
  -- each accepted request follows one course, and has it behind it once it leaves the table
  course : ∀ id, 0 < id → id < s.shared.nextRequestId →
    ∃ submitted lease user c, s.shared.history id <+: wholeCourse submitted lease user c ∧
      ((∀ i, s.shared.active i → (s.shared.requests i).requestId ≠ id) →
        s.shared.history id = wholeCourse submitted lease user c)
  unborn : ∀ id, id = 0 ∨ s.shared.nextRequestId ≤ id → s.shared.history id = []
  carried : ∀ i, s.shared.active i → IoCarried s i
  -- the counters
  accepted : s.shared.accepted + 1 = s.shared.nextRequestId
  books : s.shared.accepted = s.shared.acknowledged + s.shared.activeRequests
  active : s.shared.activeRequests = ((Finset.range s.shared.requestCapacity).filter
    fun i => (s.shared.requests i).phase ≠ .free).card
  -- leases, cancels and the order of the backend
  leases : ∀ i j, s.shared.active i → s.shared.active j → i ≠ j →
    (s.shared.requests i).leaseId ≠ (s.shared.requests j).leaseId
  cancelled : ∀ id ∈ s.shared.cancelled, .submit ∉ s.shared.history id
  submits : ∀ id, .submit ∈ s.shared.history id ↔ id ∈ s.shared.submits
  sorted : s.shared.submits.Pairwise (· < ·)
  quiescent : s.shared.quiescent = true → ∀ id, 0 < id → id < s.shared.nextRequestId →
    ∃ submitted lease user c, s.shared.history id = wholeCourse submitted lease user c

theorem course_prefix (slot : IoSlot) (submitted : Bool) :
    ∃ submitted', slot.course submitted <+:
      wholeCourse submitted' slot.leaseId slot.operation.user slot.completion := by
  unfold IoSlot.course
  split
  · exact ⟨submitted,List.nil_prefix⟩
  · exact ⟨false,List.prefix_append ..⟩
  · exact ⟨false,List.prefix_append ..⟩
  · exact ⟨true,List.prefix_append ..⟩
  all_goals
    refine ⟨submitted,?_⟩
    unfold wholeCourse
    simp only [List.prefix_append_right_inj]
    exact ⟨_,rfl⟩

namespace IoActor

variable {best : Option Nat}

theorem firstReady_eq_none {k : Nat} (h : a.firstReady best k = none) :
    best = none ∧ (a.requests k).phase ≠ .ready := by
  unfold firstReady at h
  by_cases hk : (a.requests k).phase = .ready
  · rw [if_pos hk] at h
    cases best with
    | none => cases h
    | some j =>
      dsimp only at h
      split_ifs at h
  · rw [if_neg hk] at h
    exact ⟨h,hk⟩

theorem foldl_firstReady_none (l : List Nat) (h : l.foldl a.firstReady best = none) :
    best = none ∧ ∀ j ∈ l, (a.requests j).phase ≠ .ready := by
  induction l generalizing best with
  | nil => exact ⟨h,fun j hj => absurd hj List.not_mem_nil⟩
  | cons k l ih =>
    obtain ⟨hnone,hall⟩ := ih h
    obtain ⟨hbest,hk⟩ := firstReady_eq_none hnone
    refine ⟨hbest,fun j hj => ?_⟩
    rcases List.mem_cons.1 hj with rfl | hj
    · exact hk
    · exact hall j hj

theorem plan_ne_leave (hi : i < a.requestCapacity)
    (hphase : (a.requests i).phase = .ready ∨ (a.requests i).phase = .completed)
    (maxSteps n : Nat) : (a.plan maxSteps n).2.1 ≠ .leave n := by
  unfold plan
  split
  · exact fun hc => by cases hc
  split
  · exact fun hc => by cases hc
  split
  · split_ifs <;> exact fun hc => by cases hc
  rename_i hready
  split
  · exact fun hc => by cases hc
  rename_i hcompleted
  have hmem := List.mem_range.2 hi
  rcases hphase with hphase | hphase
  · exact absurd hphase ((foldl_firstReady_none _ hready).2 i hmem)
  · have := List.find?_eq_none.1 hcompleted i hmem
    simp [hphase] at this

end IoActor

namespace IoInv

section

variable (h : IoInv s)

include h

theorem holder {g : IoGrip} (hi : (s.shared.requests i).grip = some g) :
    ∃ p ∈ s.threads, p.holding = some (g, i) := by
  have hload : 0 < load (IoPoint.holdsAt g i) s.threads := by
    rw [← h.held, holds, if_pos hi]
    exact Nat.one_pos
  obtain ⟨p,hp,hpos⟩ := exists_of_load_pos hload
  refine ⟨p,hp,?_⟩
  by_contra hne
  rw [IoPoint.holdsAt, if_neg hne] at hpos
  exact lt_irrefl 0 hpos

theorem taken_or_asked (hi : s.shared.active i)
    (hphase : (s.shared.requests i).phase = .backendPending) :
    (s.shared.requests i).requestId ∈ s.shared.taken ∨
      ∃ p ∈ s.threads, p.asks = some (s.shared.requests i).requestId := by
  obtain ⟨submitted,hcourse⟩ := h.core.table.course i hi
  simp only [IoSlot.course, hphase] at hcourse
  have hsubmit := (h.core.order.submits (s.shared.requests i).requestId).1 (by simp [hcourse, handed])
  rcases h.asked _ hsubmit with (htaken | ⟨c,hc⟩) | hasked
  · exact .inl htaken
  · simp [hcourse, handed] at hc
  · exact .inr hasked

theorem carried (hi : s.shared.active i) : IoCarried s i := by
  have htable := h.core.table
  have hfind := htable.find hi
  have hpos := (htable.ids i hi).1
  unfold IoCarried
  dsimp only
  split
  · trivial
  · rename_i hphase
    exact h.core.order.queued i hphase
  · rename_i hphase
    exact plan_ne_leave (htable.range i hi) (.inl hphase)
  · rename_i hphase
    exact plan_ne_leave (htable.range i hi) (.inr hphase)
  · rename_i hphase
    refine ⟨h.taken_or_asked hi hphase,fun c hc => ?_⟩
    have hcomplete : s.shared.complete (s.shared.requests i).requestId c =
        (s.shared.completeAt i c).prepareWake (.complete .accepted) := by
      unfold IoActor.complete
      rw [if_neg (by simp [hpos.ne', hc]), hfind]
      exact if_neg (not_not.2 hphase)
    rw [hcomplete]
    unfold prepareWake
    split_ifs <;> exact Function.update_self ..
  · rename_i hphase
    exact h.holder (by rw [IoSlot.grip, hphase])
  · rename_i hphase
    obtain ⟨p,hp,hhold⟩ := h.holder (by rw [IoSlot.grip, hphase])
    unfold IoPoint.holding at hhold
    split at hhold <;> cases hhold
    exact hp
  · rename_i hphase
    unfold IoActor.acknowledge
    rw [if_neg hpos.ne', hfind]
    dsimp only
    rw [if_neg (not_not.2 hphase)]
  · rename_i hphase
    obtain ⟨p,hp,hhold⟩ := h.holder
      (by rw [IoSlot.grip, hphase])
    unfold IoPoint.holding at hhold
    split at hhold <;> cases hhold
    exact hp

theorem course (hpos : 0 < id) (hlt : id < s.shared.nextRequestId) :
    ∃ submitted lease user c, s.shared.history id <+: wholeCourse submitted lease user c ∧
      ((∀ i, s.shared.active i → (s.shared.requests i).requestId ≠ id) →
        s.shared.history id = wholeCourse submitted lease user c) := by
  have htable := h.core.table
  by_cases hactive : ∃ i, s.shared.active i ∧ (s.shared.requests i).requestId = id
  · obtain ⟨i,hi,rfl⟩ := hactive
    obtain ⟨submitted,hs⟩ := htable.course i hi
    obtain ⟨submitted', hprefix⟩ := course_prefix (s.shared.requests i) submitted
    exact ⟨submitted',_,_,_,hs ▸ hprefix,fun hno => absurd rfl (hno i hi)⟩
  · have hno : ∀ i, s.shared.active i → (s.shared.requests i).requestId ≠ id :=
      fun i hi hid => hactive ⟨i,hi,hid⟩
    obtain ⟨submitted,lease,user,c,hs⟩ := htable.gone id hpos hlt hno
    exact ⟨submitted,lease,user,c,hs ▸ List.prefix_rfl,fun _ => hs⟩

theorem activeRequests_eq_card :
    s.shared.activeRequests = ((Finset.range s.shared.requestCapacity).filter
      fun i => (s.shared.requests i).phase ≠ .free).card := by
  rw [h.core.table.count, Finset.card_filter]
  refine Finset.sum_congr rfl fun i _ => ?_
  rw [IoSlot.weight, ite_not]

theorem quiescent (hq : s.shared.quiescent = true) (hpos : 0 < id)
    (hlt : id < s.shared.nextRequestId) :
    ∃ submitted lease user c, s.shared.history id = wholeCourse submitted lease user c := by
  have hzero : s.shared.activeRequests = 0 := by
    simp only [IoActor.quiescent, Bool.and_eq_true, beq_iff_eq] at hq
    exact hq.1.1.2
  refine h.core.table.gone id hpos hlt fun i hi => ?_
  -- no slot is in use
  have hweight : (s.shared.requests i).weight ≤ 0 := by
    rw [← hzero, h.core.table.count]
    exact weight_le_tally (h.core.table.range i hi)
  rw [IoSlot.weight, if_neg hi] at hweight
  exact absurd hweight (by decide)

theorem safe : IoSafe s where
  course _ := h.course
  unborn := h.core.table.unborn
  carried _ := h.carried
  accepted := h.core.table.next.1
  books := h.core.table.books
  active := h.activeRequests_eq_card
  leases i j hi hj hij := (h.core.table.distinct i j hi hj hij).2
  cancelled id hid hmem := (h.core.order.cancelled id hid).2.1 ((h.core.order.submits id).1 hmem)
  submits := h.core.order.submits
  sorted := h.core.order.sorted
  quiescent hq _ := h.quiescent hq

end

end IoInv

/-- A request goes through the backend, a second one is cancelled while it is ready, a third one is
refused by the backend; all are delivered and acknowledged, then the actor is closed. -/
def deliverCancelRefuse : List IoAction :=
  [.enter (.submit 7 ⟨5, true⟩), .run 0 .go, .run 0 .go,
    .enter (.submit 8 ⟨6, true⟩), .run 1 .go, .run 1 .go,
    .enter (.run 3), .run 2 .go, .run 2 .go, .run 2 .go, .run 2 .go,
    .enter (.cancel 2), .run 3 .go, .run 3 .go,
    -- the backend completes inside the submit, and then answers twice
    .enter (.complete 1 { bytes := 9 }), .run 4 .go, .run 2 (.status 0), .run 2 .go, .run 2 .go,
    .enter (.complete 1 { kind := .failed, error := 3 }), .run 5 .go,
    -- the executor rejects the first post
    .enter (.run 9), .run 6 .go, .run 6 .go, .run 6 .go, .run 6 (.admission .full), .run 6 .go,
    .enter (.run 9), .run 7 .go, .run 7 .go, .run 7 (.admission .accepted), .run 7 .go,
    .run 7 (.admission .accepted), .run 7 .go, .run 7 .go,
    .run 8 .go, .run 8 .go, .run 9 .go, .run 9 .go,
    .enter (.ack 1), .run 10 .go, .run 10 .go, .run 10 .go,
    .enter (.ack 2), .run 11 .go, .run 11 .go, .run 11 .go,
    -- the backend refuses the third submit
    .enter (.submit 9 ⟨4, true⟩), .run 12 .go, .run 12 .go,
    .enter (.run 9), .run 13 .go, .run 13 .go, .run 13 .go, .run 13 (.status (-5)), .run 13 .go,
    .run 13 .go, .run 13 (.admission .accepted), .run 13 .go, .run 13 .go, .run 14 .go, .run 14 .go,
    .enter (.ack 3), .run 15 .go, .run 15 .go, .run 15 .go, .enter .close, .run 16 .go, .run 16 .go]

end Salts.CFlow
