import Salts.CFlowIoActor

/-!
Everything a thread of an I/O actor can do in one move: a few changes of the request table, and what
it holds of it before and behind them.
-/

namespace Salts.CFlow

open ThreadPool Relation
open IoSlot
open IoActor

/-- What a thread can have in its hands: a slot queued for delivery, a slot whose callback runs, a
slot with its request that is being released. -/
inductive IoGrip where
  | queue
  | callback
  | release (id : Nat)
  deriving DecidableEq

def IoSlot.grip (slot : IoSlot) : Option IoGrip :=
  match slot.phase with
  | .dispatchQueued => some .queue
  | .dispatchRunning => some .callback
  | .releasing => some (.release slot.requestId)
  | _ => none

namespace IoPoint

def holding : IoPoint → Option (IoGrip × Nat)
  | .posting _ _ i => some (.queue, i)
  | .task i => some (.queue, i)
  | .delivering i => some (.callback, i)
  | .releasing i id => some (.release id, i)
  | _ => none

def holdsAt (g : IoGrip) (i : Nat) (p : IoPoint) : Nat := if p.holding = some (g, i) then 1 else 0

def drives : IoPoint → Nat
  | .drive _ _ => 1
  | .cancelling _ _ _ => 1
  | .submitting _ _ _ => 1
  | .renotify _ _ => 1
  | .posting _ _ _ => 1
  | .leave _ => 1
  | _ => 0

def credit : IoPoint → Nat
  | .waking _ => 1
  | .delivering _ => 1
  | _ => 0

def asks : IoPoint → Option Nat
  | .submitting _ _ id => some id
  | _ => none

/-- The requests handed to the backend, with the one the thread asks for now. -/
def hands (p : IoPoint) (submits : List Nat) : List Nat :=
  match p.asks with
  | some id => submits ++ [id]
  | none => submits

theorem mem_hands {p : IoPoint} {submits : List Nat} {id : Nat} :
    id ∈ p.hands submits ↔ id ∈ submits ∨ p.asks = some id := by
  unfold hands
  split
  · rename_i h
    rw [h, List.mem_append, List.mem_singleton, Option.some.injEq, eq_comm (a := id)]
  · rename_i h
    simp [h]

end IoPoint

def handed (submitted : Bool) : List IoEvent := .accept :: if submitted then [.submit] else []

def wholeCourse (submitted : Bool) (lease user : Nat) (c : IoCompletion) : List IoEvent :=
  handed submitted ++ [.complete c, .callback lease user c, .delivered, .acknowledge, .release user]

def IoSlot.course (slot : IoSlot) (submitted : Bool) : List IoEvent :=
  match slot.phase with
  | .free => []
  | .admitted => handed false
  | .ready => handed false
  | .backendPending => handed true
  | .completed => handed submitted ++ [.complete slot.completion]
  | .dispatchQueued => handed submitted ++ [.complete slot.completion]
  | .dispatchRunning => handed submitted ++ [.complete slot.completion,
      .callback slot.leaseId slot.operation.user slot.completion]
  | .delivered => handed submitted ++ [.complete slot.completion,
      .callback slot.leaseId slot.operation.user slot.completion, .delivered]
  | .releasing => wholeCourse submitted slot.leaseId slot.operation.user slot.completion

namespace IoActor

def active (a : IoActor) (i : Nat) : Prop := (a.requests i).phase ≠ .free

def holds (a : IoActor) (g : IoGrip) (i : Nat) : Nat :=
  if (a.requests i).grip = some g then 1 else 0

structure Aside (a t : IoActor) : Prop where
  requests : t.requests = a.requests
  requestCapacity : t.requestCapacity = a.requestCapacity
  activeRequests : t.activeRequests = a.activeRequests
  commands : t.commands = a.commands
  nextRequestId : t.nextRequestId = a.nextRequestId
  accepted : t.accepted = a.accepted
  acknowledged : t.acknowledged = a.acknowledged
  submits : t.submits = a.submits
  taken : t.taken = a.taken
  history : t.history = a.history
  cancelled : t.cancelled = a.cancelled

/-- The fields that a move aside of the request table leaves as they are. -/
def table (a : IoActor) :=
  (a.requests, a.requestCapacity, a.activeRequests, a.commands, a.nextRequestId, a.accepted,
    a.acknowledged, a.submits, a.taken, a.history, a.cancelled)

theorem Aside.of_table {a t : IoActor} (h : t.table = a.table) : Aside a t := by
  simp only [table, Prod.mk.injEq] at h
  obtain ⟨h1,h2,h3,h4,h5,h6,h7,h8,h9,h10,h11⟩ := h
  exact ⟨h1,h2,h3,h4,h5,h6,h7,h8,h9,h10,h11⟩

end IoActor

open IoActor

inductive IoChange (a : IoActor) : IoActor → Prop
  | admitted (i lease : Nat) (operation : IoOperation) (hi : i < a.requestCapacity)
      (hfree : (a.requests i).phase = .free)
      (hlease : ∀ j < a.requestCapacity, a.active j → (a.requests j).leaseId ≠ lease)
      (hnext : a.nextRequestId ≠ 2 ^ 64 - 1) : IoChange a (a.admitAt i lease operation)
  | cancel (i : Nat) (hi : a.active i) :
      IoChange a { a with
        commands := a.commands ++ [.cancel (a.requests i).requestId]
        cancelled := if (a.requests i).phase.early then
          a.cancelled ++ [(a.requests i).requestId] else a.cancelled }
  | complete (i : Nat) (c : IoCompletion)
      (hphase : (a.requests i).phase.early = true ∨ (a.requests i).phase = .backendPending) :
      IoChange a (a.completeAt i c)
  | ready (i : Nat) (hphase : (a.requests i).phase = .admitted) : IoChange a (a.setPhase i .ready)
  | flags (i : Nat) (requested dispatched : Bool)
      (hphase : (a.requests i).phase = .backendPending) :
      IoChange a (a.put i { a.requests i with
        cancelRequested := requested
        cancelDispatched := dispatched })
  | pop (command : IoCommand) (rest : List IoCommand) (hc : a.commands = command :: rest)
      (hsubmit : ∀ id i, command = .submit id → a.find id = some i →
        (a.requests i).phase ≠ .admitted)
      (hcancel : ∀ id i, command = .cancel id → a.find id = some i →
        (a.requests i).phase.early = false) :
      IoChange a { a with commands := rest }
  | handOver (i : Nat) (hc : a.commands = []) (hready : (a.requests i).phase = .ready)
      (hfirst : ∀ j < a.requestCapacity, (a.requests j).phase = .ready →
        (a.requests i).requestId ≤ (a.requests j).requestId) :
      IoChange a (a.handOver i)
  | take (id : Nat) : IoChange a { a with taken := a.taken ++ [id] }
  | queue (i : Nat) (hphase : (a.requests i).phase = .completed) :
      IoChange a (a.setPhase i .dispatchQueued)
  | unqueue (i : Nat) (hphase : (a.requests i).phase = .dispatchQueued) :
      IoChange a (a.setPhase i .completed)
  | start (i : Nat) (hphase : (a.requests i).phase = .dispatchQueued) :
      IoChange a ((a.setPhase i .dispatchRunning).note (a.requests i).requestId
        [.callback (a.requests i).leaseId (a.requests i).operation.user (a.requests i).completion])
  | deliver (i : Nat) (hphase : (a.requests i).phase = .dispatchRunning) :
      IoChange a ((a.setPhase i .delivered).note (a.requests i).requestId [.delivered])
  | acknowledge (i : Nat) (hphase : (a.requests i).phase = .delivered) :
      IoChange a ((a.setPhase i .releasing).note (a.requests i).requestId
        [.acknowledge, .release (a.requests i).operation.user])
  | free (i : Nat) (hphase : (a.requests i).phase = .releasing) :
      IoChange a { a.put i {} with
        activeRequests := a.activeRequests - 1
        acknowledged := ioIncrement a.acknowledged }
  | close (i : Nat) (hphase : (a.requests i).phase.early = true) :
      IoChange a { a.completeAt i .cancelled with
        cancelled := a.cancelled ++ [(a.requests i).requestId] }

structure IoMove (a : IoActor) (p : IoPoint) (t : IoActor) (q : IoPoint) (new : List IoPoint) :
    Prop where
  change : ∃ b, ReflTransGen IoChange a b ∧ Aside b t
  holds : (∀ g i, p.holdsAt g i ≤ a.holds g i) → ∀ g i,
    t.holds g i + p.holdsAt g i = a.holds g i + q.holdsAt g i + load (IoPoint.holdsAt g i) new
  driver : p.drives ≤ a.driverActive.toNat →
    t.driverActive.toNat + p.drives = a.driverActive.toNat + q.drives + load IoPoint.drives new
  credit : p.credit ≤ a.callbacksInflight →
    t.callbacksInflight + p.credit = a.callbacksInflight + q.credit + load IoPoint.credit new
  -- a request goes to the backend with the thread that asks for it
  submits : t.submits = q.hands a.submits

namespace IoActor

variable {a b t : IoActor} {p q : IoPoint} {i j id : Nat} {slot : IoSlot} {c : IoCompletion}

@[simp] theorem put_requests_self (a : IoActor) (i : Nat) (slot : IoSlot) :
    (a.put i slot).requests i = slot := by
  simp [put]

theorem put_requests_of_ne (h : j ≠ i) : (a.put i slot).requests j = a.requests j := by
  simp [put, Function.update_of_ne h]

/-! ### Searches -/

theorem find_some (h : a.find id = some i) :
    i < a.requestCapacity ∧ a.active i ∧ (a.requests i).requestId = id := by
  have hp := List.find?_some h
  have hi := List.mem_of_find?_eq_some h
  simp only [Bool.and_eq_true, bne_iff_ne, beq_iff_eq] at hp
  exact ⟨List.mem_range.1 hi,hp⟩

theorem findFree_some (h : a.findFree = some i) :
    i < a.requestCapacity ∧ (a.requests i).phase = .free := by
  have hp := List.find?_some h
  have hi := List.mem_of_find?_eq_some h
  exact ⟨List.mem_range.1 hi,by simpa using hp⟩

theorem lease_of_not_inUse {lease : Nat} (h : a.leaseInUse lease = false) :
    ∀ j < a.requestCapacity, a.active j → (a.requests j).leaseId ≠ lease := by
  intro j hj hactive hlease
  have := List.any_eq_false.1 h j (List.mem_range.2 hj)
  simp [hlease, show (a.requests j).phase ≠ .free from hactive] at this

theorem findCompleted_some (h : a.findCompleted = some i) : (a.requests i).phase = .completed := by
  have hp := List.find?_some h
  simpa using hp

theorem find_put (hid : slot.requestId = (a.requests i).requestId)
    (hfree : slot.phase = .free ↔ (a.requests i).phase = .free) :
    (a.put i slot).find id = a.find id := by
  have hslot : ∀ j, (((a.put i slot).requests j).phase != .free &&
      ((a.put i slot).requests j).requestId == id) =
      ((a.requests j).phase != .free && (a.requests j).requestId == id) := by
    intro j
    by_cases hj : j = i
    · subst hj
      rw [put_requests_self, hid]
      congr 1
      rw [Bool.eq_iff_iff, bne_iff_ne, bne_iff_ne, ne_eq, hfree]
    · rw [put_requests_of_ne hj]
  simp only [find, hslot]
  rfl

theorem foldl_firstReady (l : List Nat) {best : Option Nat}
    (hbest : ∀ j, best = some j → (a.requests j).phase = .ready)
    (h : l.foldl a.firstReady best = some i) :
    (a.requests i).phase = .ready ∧
    (∀ j, best = some j → (a.requests i).requestId ≤ (a.requests j).requestId) ∧
    ∀ j ∈ l, (a.requests j).phase = .ready →
      (a.requests i).requestId ≤ (a.requests j).requestId := by
  induction l generalizing best with
  | nil =>
    obtain rfl : best = some i := h
    refine ⟨hbest i rfl,fun j hj => ?_,fun j hj => absurd hj List.not_mem_nil⟩
    cases hj
    exact le_rfl
  | cons k l ih =>
    -- the next candidate is ready and its id is no larger than those of the last one and of `k`
    have hready : ∀ j, a.firstReady best k = some j → (a.requests j).phase = .ready := by
      intro j hj
      simp only [firstReady] at hj
      grind
    obtain ⟨hi,hle,hall⟩ := ih hready h
    have hnext : ∀ m, (best = some m ∨ m = k ∧ (a.requests k).phase = .ready) →
        ∃ j, a.firstReady best k = some j ∧
          (a.requests j).requestId ≤ (a.requests m).requestId := by
      simp only [firstReady]
      grind
    have hmin : ∀ m, (best = some m ∨ m = k ∧ (a.requests k).phase = .ready) →
        (a.requests i).requestId ≤ (a.requests m).requestId := by
      intro m hm
      obtain ⟨j,hj,hjm⟩ := hnext m hm
      exact (hle j hj).trans hjm
    refine ⟨hi,fun j hj => hmin j (.inl hj),fun j hj hjready => ?_⟩
    rcases List.mem_cons.1 hj with rfl | hj
    · exact hmin j (.inr ⟨rfl,hjready⟩)
    · exact hall j hj hjready

theorem findReady_some (h : a.findReady = some i) :
    (a.requests i).phase = .ready ∧ ∀ j < a.requestCapacity, (a.requests j).phase = .ready →
      (a.requests i).requestId ≤ (a.requests j).requestId := by
  obtain ⟨hready,-,hall⟩ := foldl_firstReady _ (fun j hj => by cases hj) h
  exact ⟨hready,fun j hj => hall j (List.mem_range.2 hj)⟩

/-! ### What the threads hold -/

theorem holds_eq (h : t.requests = a.requests) (g : IoGrip) (i : Nat) :
    t.holds g i = a.holds g i := by
  rw [holds, h, holds]

theorem holds_put (ht : t.requests = (a.put i slot).requests)
    (hp : p.holding = (a.requests i).grip.map (·, i)) (hq : q.holding = slot.grip.map (·, i))
    (g : IoGrip) (j : Nat) : t.holds g j + p.holdsAt g j = a.holds g j + q.holdsAt g j := by
  by_cases hj : j = i
  · subst hj
    simp only [holds, IoPoint.holdsAt, ht, put_requests_self, hp, hq, Option.map_eq_some_iff,
      Prod.mk.injEq, and_true, exists_eq_right]
    omega
  · simp [holds, IoPoint.holdsAt, ht, put_requests_of_ne hj, hp, hq, (Ne.symm hj)]

theorem grip_of_holding {g : IoGrip} (h : ∀ g i, p.holdsAt g i ≤ a.holds g i)
    (hp : p.holding = some (g, i)) : (a.requests i).grip = some g := by
  have := h g i
  rw [IoPoint.holdsAt, if_pos hp, holds] at this
  by_contra hne
  rw [if_neg hne] at this
  omega

theorem grip_queue (h : slot.grip = some .queue) : slot.phase = .dispatchQueued := by
  unfold grip at h
  split at h <;> simp_all

theorem grip_callback (h : slot.grip = some .callback) : slot.phase = .dispatchRunning := by
  unfold grip at h
  split at h <;> simp_all

theorem grip_release (h : slot.grip = some (.release id)) :
    slot.phase = .releasing ∧ slot.requestId = id := by
  unfold grip at h
  split at h <;> simp_all

theorem grip_pending (h : (a.requests i).phase = .backendPending) : (a.requests i).grip = none := by
  simp [grip, h]

theorem grip_early (h : (a.requests i).phase.early = true) : (a.requests i).grip = none := by
  unfold IoPhase.early at h
  split at h <;> simp_all [grip]

theorem holds_quiet (ht : t.requests = (a.put i slot).requests) (hi : (a.requests i).grip = none)
    (hslot : slot.grip = none) (g : IoGrip) (j : Nat) : t.holds g j = a.holds g j := by
  have := holds_put (p := .close) (q := .close) ht (by rw [hi]; rfl) (by rw [hslot]; rfl) g j
  omega

structure Quiet (a b : IoActor) : Prop where
  changes : ReflTransGen IoChange a b
  holds : ∀ g i, b.holds g i = a.holds g i
  driver : b.driverActive = a.driverActive
  credit : b.callbacksInflight = a.callbacksInflight
  submits : b.submits = a.submits

namespace Quiet

theorem refl (a : IoActor) : Quiet a a := ⟨.refl,fun _ _ => rfl,rfl,rfl,rfl⟩

theorem trans (hab : Quiet a b) (hbt : Quiet b t) : Quiet a t where
  changes := hab.changes.trans hbt.changes
  holds := fun g i => (hbt.holds g i).trans (hab.holds g i)
  driver := hbt.driver.trans hab.driver
  credit := hbt.credit.trans hab.credit
  submits := hbt.submits.trans hab.submits

theorem complete (c : IoCompletion)
    (h : (a.requests i).phase.early = true ∨ (a.requests i).phase = .backendPending) :
    Quiet a (a.completeAt i c) where
  changes := .single (.complete i c h)
  holds := holds_quiet rfl (h.elim grip_early grip_pending) rfl
  driver := rfl
  credit := rfl
  submits := rfl

theorem flags (requested dispatched : Bool) (h : (a.requests i).phase = .backendPending) :
    Quiet a (a.put i { a.requests i with
      cancelRequested := requested
      cancelDispatched := dispatched }) where
  changes := .single (.flags i requested dispatched h)
  holds := holds_quiet rfl (grip_pending h) (by simp [grip, h])
  driver := rfl
  credit := rfl
  submits := rfl

theorem closeAt (a : IoActor) (i : Nat) : Quiet a (a.closeAt i) := by
  unfold IoActor.closeAt
  split_ifs with hearly hpending
  · exact ⟨.single (.close i hearly),holds_quiet rfl (grip_early hearly) rfl,rfl,rfl,rfl⟩
  · exact flags true _ hpending
  · exact refl a

theorem foldl_closeAt (l : List Nat) (a : IoActor) : Quiet a (l.foldl IoActor.closeAt a) := by
  induction l generalizing a with
  | nil => exact refl a
  | cons i l ih => exact (closeAt a i).trans (ih _)

theorem process (a : IoActor) (command : IoCommand) : Quiet a (a.process command) := by
  cases command with
  | submit id =>
    simp only [IoActor.process]
    split
    · exact refl a
    split_ifs with hphase hclosing
    · exact refl a
    · exact complete _ (.inl (by rw [not_not.1 hphase]; rfl))
    · have hadmitted := not_not.1 hphase
      exact ⟨.single (.ready _ hadmitted),
        holds_quiet rfl (by simp [grip, hadmitted]) rfl,rfl,rfl,rfl⟩
  | cancel id =>
    simp only [IoActor.process]
    split
    · exact refl a
    split_ifs with hearly hpending
    · exact complete _ (.inl hearly)
    · exact flags true _ hpending
    · exact refl a

end Quiet

theorem process_commands (a : IoActor) (rest : List IoCommand) (command : IoCommand) :
    ({ a with commands := rest }).process command =
      { a.process command with commands := rest } := by
  have hfind : ∀ id, ({ a with commands := rest } : IoActor).find id = a.find id := fun _ => rfl
  cases command with
  | submit id =>
    simp only [process, hfind]
    split
    · rfl
    · split_ifs <;> rfl
  | cancel id =>
    simp only [process, hfind]
    split
    · rfl
    · split_ifs <;> rfl

theorem find_completeAt (c : IoCompletion) (h : a.active i) :
    (a.completeAt i c).find id = a.find id :=
  have hid : ({ a.requests i with completion := c, phase := .completed } : IoSlot).requestId =
      (a.requests i).requestId := rfl
  find_put hid ⟨fun hc => (by cases hc),fun hf => absurd hf h⟩

theorem process_submit_spent (h : (a.process (.submit id)).find id = some i) :
    ((a.process (.submit id)).requests i).phase ≠ .admitted := by
  rcases hk : a.find id with _ | k
  · simp [process, hk, reduceCtorEq] at h
  obtain ⟨-,hactive,-⟩ := find_some hk
  simp only [process, hk] at h ⊢
  split_ifs at h ⊢ with hphase hclosing
  · cases hk.symm.trans h
    exact hphase
  · cases hk.symm.trans ((find_completeAt _ hactive).symm.trans h)
    simp [completeAt, note]
  · have hfind : (a.setPhase k .ready).find id = a.find id :=
      find_put rfl ⟨fun hc => (by cases hc),fun hf => absurd hf hactive⟩
    cases hk.symm.trans (hfind.symm.trans h)
    simp [setPhase]

theorem process_cancel_spent (h : (a.process (.cancel id)).find id = some i) :
    ((a.process (.cancel id)).requests i).phase.early = false := by
  rcases hk : a.find id with _ | k
  · simp [process, hk, reduceCtorEq] at h
  obtain ⟨-,hactive,-⟩ := find_some hk
  simp only [process, hk] at h ⊢
  split_ifs at h ⊢ with hearly hpending
  · cases hk.symm.trans ((find_completeAt _ hactive).symm.trans h)
    simp [completeAt, note, IoPhase.early]
  · have hfind : (a.put k { a.requests k with cancelRequested := true }).find id = a.find id :=
      find_put rfl Iff.rfl
    cases hk.symm.trans (hfind.symm.trans h)
    simpa using hearly
  · cases hk.symm.trans h
    simpa using hearly

theorem closeAt_closing (a : IoActor) (i : Nat) (closing : Bool) :
    ({ a with closing := closing }).closeAt i = { a.closeAt i with closing := closing } := by
  unfold closeAt
  split_ifs <;> rfl

theorem foldl_closeAt_closing (l : List Nat) (a : IoActor) (closing : Bool) :
    l.foldl closeAt { a with closing := closing } =
      { l.foldl closeAt a with closing := closing } := by
  induction l generalizing a with
  | nil => rfl
  | cons i l ih => rw [List.foldl_cons, List.foldl_cons, closeAt_closing, ih]

end IoActor

namespace IoMove

variable {a b t : IoActor} {p q : IoPoint} {i id : Nat} {x : IoSlot}

theorem idle (hb : ReflTransGen IoChange a b) (hholds : ∀ g i, b.holds g i = a.holds g i)
    (h : (t.table, p.holding, q.holding, b.submits, q.asks) = (b.table, none, none, a.submits, none))
    (hdriver : p.drives ≤ a.driverActive.toNat →
      t.driverActive.toNat + p.drives = a.driverActive.toNat + q.drives)
    (hcredit : p.credit ≤ a.callbacksInflight →
      t.callbacksInflight + p.credit = a.callbacksInflight + q.credit) : IoMove a p t q [] := by
  simp only [Prod.mk.injEq] at h
  obtain ⟨ht,hp,hq,hsubmits,hasks⟩ := h
  have haside := Aside.of_table ht
  refine ⟨⟨b,hb,haside⟩,fun _ g i => ?_,hdriver,hcredit,?_⟩
  · rw [holds_eq haside.requests, hholds, IoPoint.holdsAt, IoPoint.holdsAt, hp, hq]
    rfl
  · rw [haside.submits, hsubmits, IoPoint.hands, hasks]

theorem quiet (hb : Quiet a b)
    (h : (t.table, p.holding, q.holding, q.asks, t.driverActive.toNat + p.drives,
        t.callbacksInflight + p.credit) =
      (b.table, none, none, none, b.driverActive.toNat + q.drives,
        b.callbacksInflight + q.credit)) : IoMove a p t q [] := by
  simp only [Prod.mk.injEq] at h
  obtain ⟨ht,hp,hq,hasks,hdriver,hcredit⟩ := h
  rw [hb.driver] at hdriver
  rw [hb.credit] at hcredit
  exact idle hb.changes hb.holds (by rw [ht, hp, hq, hb.submits, hasks]) (fun _ => hdriver) fun _ => hcredit

theorem aside (h : (t.table, p.holding, q.holding, q.asks, t.driverActive.toNat + p.drives,
      t.callbacksInflight + p.credit) =
    (a.table, none, none, none, a.driverActive.toNat + q.drives,
      a.callbacksInflight + q.credit)) : IoMove a p t q [] :=
  quiet (.refl a) h

theorem slot {f : IoPhase} (hb : IoChange a b) (hphase : (a.requests i).phase = f)
    (h : (b.requests, p.holding, q.holding, t.table, t.driverActive.toNat + p.drives,
        t.callbacksInflight + p.credit, b.submits) =
      ((a.put i x).requests, ({ a.requests i with phase := f } : IoSlot).grip.map (·, i),
        x.grip.map (·, i), b.table, a.driverActive.toNat + q.drives,
        a.callbacksInflight + q.credit, q.hands a.submits)) : IoMove a p t q [] := by
  subst hphase
  simp only [Prod.mk.injEq] at h
  obtain ⟨hslot,hp,hq,ht,hdriver,hcredit,hsubmits⟩ := h
  have haside := Aside.of_table ht
  exact ⟨⟨b,.single hb,haside⟩,fun _ => holds_put (haside.requests.trans hslot) hp hq,
    fun _ => hdriver,fun _ => hcredit,haside.submits.trans hsubmits⟩

abbrev Does (a : IoActor) (p : IoPoint) (m : IoActor.Move) : Prop := IoMove a p m.1 m.2.1 m.2.2

theorem wake (answer : IoAnswer) (hb : Quiet a b)
    (h : (p.holding, p.drives, p.credit) = (none, 0, 0)) : Does a p (b.prepareWake answer) := by
  simp only [Prod.mk.injEq] at h
  obtain ⟨hp,hdrives,hcredit⟩ := h
  unfold prepareWake
  split_ifs
  · exact quiet hb (by rw [hp, hdrives, hcredit]; rfl)
  · exact quiet hb (by rw [hp, hdrives, hcredit]; rfl)

/-! ### Calls -/

theorem of_submit (lease : Nat) (operation : IoOperation) :
    Does a (.submit lease operation) (a.submit lease operation) := by
  unfold submit returns
  split_ifs with _ _ hlease _ _ hnext
  case neg =>
    split
    · exact aside rfl
    rename_i i hi
    obtain ⟨hlt,hfree⟩ := findFree_some hi
    have hadmit := IoChange.admitted i lease operation hlt hfree
      (lease_of_not_inUse (by simpa using hlease)) hnext
    exact slot hadmit hfree rfl
  all_goals exact aside rfl

theorem of_cancel (id : Nat) : Does a (.cancel id) (a.cancel id) := by
  unfold cancel returns
  split
  · exact aside rfl
  split
  · exact aside rfl
  rename_i i hi
  split
  · exact aside rfl
  split
  · exact aside rfl
  · obtain ⟨-,hactive,rfl⟩ := find_some hi
    exact idle (.single (.cancel i hactive)) (fun _ _ => rfl) rfl (fun _ => rfl) fun _ => rfl

theorem of_complete (id : Nat) (c : IoCompletion) : Does a (.complete id c) (a.complete id c) := by
  unfold complete returns stale
  split_ifs
  · exact aside rfl
  split
  · exact aside rfl
  · split_ifs with hphase
    · exact aside rfl
    · exact wake _ (Quiet.complete c (.inr (not_not.1 hphase))) rfl

theorem of_run (maxSteps : Nat) : Does a (.run maxSteps) (a.run maxSteps) := by
  unfold run returns
  split_ifs with hzero hdriver
  · exact aside rfl
  · exact aside rfl
  · rw [Bool.not_eq_true] at hdriver
    exact aside (by rw [hdriver]; rfl)

theorem of_acknowledge (id : Nat) : Does a (.ack id) (a.acknowledge id) := by
  unfold acknowledge returns
  split_ifs
  · exact aside rfl
  split
  · exact aside rfl
  rename_i i hi
  split_ifs with hphase
  · exact aside rfl
  · obtain ⟨-,-,rfl⟩ := find_some hi
    have hdelivered := not_not.1 hphase
    exact slot (.acknowledge i hdelivered) hdelivered rfl

theorem of_close : Does a .close a.close := by
  unfold IoActor.close returns
  split_ifs
  · exact aside rfl
  · rw [foldl_closeAt_closing]
    exact quiet (Quiet.foldl_closeAt (List.range a.requestCapacity) a) rfl

/-! ### The driver -/

theorem of_plan (maxSteps n : Nat) : Does a (.drive maxSteps n) (a.plan maxSteps n) := by
  unfold plan
  split
  · -- a command leaves the queue once it is worked on
    rename_i command rest hc
    rw [process_commands]
    have hquiet := Quiet.process a command
    have hpop : IoChange (a.process command) { a.process command with commands := rest } := by
      refine .pop command rest ?_ ?_ ?_
      · exact (congrArg commands (process_commands a a.commands command)).trans hc
      · rintro id i rfl hfind
        exact process_submit_spent hfind
      · rintro id i rfl hfind
        exact process_cancel_spent hfind
    exact quiet ⟨hquiet.changes.tail hpop,hquiet.holds,hquiet.driver,hquiet.credit,hquiet.submits⟩
      rfl
  · rename_i hc
    split
    · rename_i i hi
      have hphase : (a.requests i).phase = .backendPending := by
        have := List.find?_some hi
        simp only [Bool.and_eq_true, beq_iff_eq] at this
        exact this.1.1
      exact quiet (Quiet.flags (a.requests i).cancelRequested true hphase) rfl
    · split
      · rename_i i hi
        obtain ⟨hready,hfirst⟩ := findReady_some hi
        split_ifs
        · exact quiet (Quiet.complete .cancelled (.inl (by rw [hready]; rfl))) rfl
        · exact slot (.handOver i hc hready hfirst) hready rfl
      · split
        · rename_i i hi
          have hphase := findCompleted_some hi
          exact slot (.queue i hphase) hphase rfl
        · exact aside rfl

theorem of_submitted (maxSteps n id : Nat) (status : Int) :
    Does a (.submitting maxSteps n id) (a.submitted maxSteps n id status) := by
  unfold submitted
  split
  · exact idle (.single (.take id)) (fun _ _ => rfl) rfl (fun _ => rfl) fun _ => rfl
  dsimp only
  split
  · exact aside rfl
  split_ifs with hphase
  · exact aside rfl
  · have hpending := not_not.1 hphase
    exact quiet (Quiet.complete { kind := .failed, error := status } (.inr hpending)) rfl

theorem of_posted (maxSteps n i : Nat) (admission : IoAdmission) :
    Does a (.posting maxSteps n i) (a.posted maxSteps n i admission) := by
  unfold posted
  split
  · -- the task takes the slot over
    exact ⟨⟨a,.refl,Aside.of_table rfl⟩,fun _ g j => by simp [IoPoint.holdsAt, IoPoint.holding],
      fun _ => rfl,fun _ => rfl,rfl⟩
  · dsimp only
    split_ifs with hphase
    · exact slot (.unqueue i hphase) hphase rfl
    · refine ⟨⟨a,.refl,Aside.of_table rfl⟩,fun hheld => ?_,fun _ => rfl,fun _ => rfl,rfl⟩
      exact absurd (grip_queue (grip_of_holding hheld rfl)) hphase

theorem of_leave (n : Nat) : Does a (.leave n) (a.leave n) := by
  unfold leave
  dsimp only
  have hdriver : 1 ≤ a.driverActive.toNat → (false).toNat+1 = a.driverActive.toNat+0 := by
    have := Bool.toNat_le a.driverActive
    intro h1
    show 0+1 = _
    omega
  split
  · exact idle .refl (fun _ _ => rfl) rfl hdriver fun _ => rfl
  · exact idle .refl (fun _ _ => rfl) rfl hdriver fun _ => rfl

/-! ### Tasks and releases -/

theorem of_startTask (i : Nat) : Does a (.task i) (a.startTask i) := by
  unfold startTask returns
  dsimp only
  split_ifs with hphase
  · refine ⟨⟨a,.refl,Aside.of_table rfl⟩,fun hheld => ?_,fun _ => rfl,fun _ => rfl,rfl⟩
    exact absurd (grip_queue (grip_of_holding hheld rfl)) hphase
  · have hqueued := not_not.1 hphase
    exact slot (.start i hqueued) hqueued rfl

theorem ends (hb : ReflTransGen IoChange a b)
    (hholds : (∀ g j, (IoPoint.delivering i).holdsAt g j ≤ a.holds g j) →
      ∀ g j, b.holds g j + (IoPoint.delivering i).holdsAt g j = a.holds g j)
    (hdriver : b.driverActive = a.driverActive)
    (hcredit : b.callbacksInflight = a.callbacksInflight) (hsubmits : b.submits = a.submits) :
    Does a (.delivering i) (if b.driverActive || !b.wake then
        ({ b with wakePending := true, callbacksInflight := b.callbacksInflight - 1 },
          .returned .task, [])
      else ({ b with wakePending := false }, .waking .task, [])) := by
  split
  · refine ⟨⟨b,hb,Aside.of_table rfl⟩,hholds,fun _ => congrArg Bool.toNat hdriver,?_,hsubmits⟩
    intro hle
    have hle : 1 ≤ a.callbacksInflight := hle
    show b.callbacksInflight-1+1 = a.callbacksInflight+0+0
    omega
  · exact ⟨⟨b,hb,Aside.of_table rfl⟩,hholds,fun _ => congrArg Bool.toNat hdriver,
      fun _ => congrArg (· + 1) hcredit,hsubmits⟩

theorem of_endTask (i : Nat) : Does a (.delivering i) (a.endTask i) := by
  unfold endTask
  by_cases hphase : (a.requests i).phase = .dispatchRunning
  · rw [if_pos hphase]
    refine ends (.single (.deliver i hphase)) (fun _ g j => ?_) rfl rfl rfl
    refine holds_put (q := .returned .task) rfl ?_ rfl g j
    simp [IoPoint.holding, grip, hphase]
  · rw [if_neg hphase]
    refine ends .refl (fun hheld => ?_) rfl rfl rfl
    exact absurd (grip_callback (grip_of_holding hheld rfl)) hphase

theorem of_free (i id : Nat) : Does a (.releasing i id) (a.free i id) := by
  unfold free
  split_ifs with hphase
  · obtain ⟨hreleasing,rfl⟩ := hphase
    exact slot (.free i hreleasing) hreleasing rfl
  · refine ⟨⟨a,.refl,Aside.of_table rfl⟩,fun hheld => ?_,fun _ => rfl,fun _ => rfl,rfl⟩
    exact absurd (grip_release (grip_of_holding hheld rfl)) hphase

theorem of_move {ch : IoChoice} {m : IoActor.Move} (h : a.move p ch = some m) : Does a p m := by
  rcases Option.or_eq_some_iff.1 h with h | ⟨-,h⟩
  · unfold moveEntry at h
    split at h <;> cases h
    exacts [of_submit _ _, of_cancel _, of_complete _ _, of_run _, of_acknowledge _, of_close]
  rcases Option.or_eq_some_iff.1 h with h | ⟨-,h⟩
  · unfold moveDriver at h
    split at h <;> cases h
    · split_ifs
      · exact of_plan _ _
      · exact aside rfl
    · exact aside rfl
    · exact of_submitted _ _ _ _
    · exact aside rfl
    · exact of_posted _ _ _ _
    · exact of_leave _
  · unfold moveRest at h
    split at h <;> cases h
    · exact of_startTask _
    · exact of_endTask _
    · exact of_free _ _
    · exact wake _ (.refl a) rfl
    · exact idle .refl (fun _ _ => rfl) rfl (fun _ => rfl) Nat.sub_add_cancel

end IoMove

end Salts.CFlow
