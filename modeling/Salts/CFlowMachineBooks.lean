import Salts.CFlowMachine
import Salts.Transition

/-!
The books of a machine instance: every accepted event is completed, failed, cancelled, pending or
in flight, the events are processed in the order of their acceptance, the state is what the selected
transitions make of the committed events, and nothing is committed once cancellation was requested.
-/

namespace Salts.CFlow

open MachineSystem
open ControlLifecycle
open List (append_nil)

inductive EntryKind where
  | accepted
  | received
  | completed
  | entered
  | failed
  | cancelled
  deriving DecidableEq

namespace EntryKind

@[simp] def committed : List EntryKind := [.completed, .entered]

@[simp] def settled : List EntryKind := [.completed, .entered, .failed, .cancelled]

end EntryKind

namespace MachineEntry

variable {V : Type}

@[simp] def label : MachineEntry V → Option (EntryKind × Event V)
  | .accepted e => some (.accepted, e)
  | .received e => some (.received, e)
  | .completed e => some (.completed, e)
  | .entered e => some (.entered, e)
  | .failed e _ => some (.failed, e)
  | .cancelled e => some (.cancelled, e)
  | _ => none

end MachineEntry

namespace MachineSystem

variable {V : Type}

def eventsOf (kinds : List EntryKind) (h : List (MachineEntry V)) : List (Event V) :=
  h.filterMap fun x => x.label.bind fun l => if l.1 ∈ kinds then some l.2 else none

@[simp] theorem eventsOf_nil (kinds : List EntryKind) :
    eventsOf kinds ([] : List (MachineEntry V)) = [] := rfl

@[simp] theorem eventsOf_append (kinds : List EntryKind) (h k : List (MachineEntry V)) :
    eventsOf kinds (h ++ k) = eventsOf kinds h ++ eventsOf kinds k :=
  List.filterMap_append

@[simp] theorem eventsOf_cons (kinds : List EntryKind) (x : MachineEntry V) (h : List (MachineEntry V)) :
    eventsOf kinds (x :: h) =
      (x.label.bind fun l => if l.1 ∈ kinds then some l.2 else none).toList ++ eventsOf kinds h := by
  unfold eventsOf
  rw [List.filterMap_cons]
  cases x.label.bind fun l => if l.1 ∈ kinds then some l.2 else none <;> rfl

theorem length_settled (h : List (MachineEntry V)) : (eventsOf EntryKind.settled h).length =
    (eventsOf [.completed] h).length +
      ((eventsOf [.entered] h).length + (eventsOf [.failed] h).length) +
      (eventsOf [.cancelled] h).length := by
  induction h with
  | nil => rfl
  | cons x h ih =>
    cases x <;> simp at ih ⊢ <;> omega

def Silent (h : List (MachineEntry V)) : Prop :=
  ∀ before after, h = before ++ .cancelRequested :: after → eventsOf EntryKind.committed after = []

theorem Silent.append {h k : List (MachineEntry V)} (hs : Silent h)
    (hk : eventsOf EntryKind.committed k = [] ∨ .cancelRequested ∉ h ∧ .cancelRequested ∉ k) : Silent (h ++ k) := by
  intro before after heq
  have hmem : .cancelRequested ∈ h ∨ .cancelRequested ∈ k := by
    rw [← List.mem_append, heq]
    simp
  have hcommit : eventsOf EntryKind.committed k = [] := by
    rcases hk with hk | ⟨hh,hk⟩
    · exact hk
    · exact absurd hmem (by simp [hh, hk])
  rcases List.append_eq_append_iff.1 heq with ⟨mid,rfl,htail⟩ | ⟨mid,hbefore,htail⟩
  · -- The request is one of the new entries.
    rw [htail] at hcommit
    simp only [eventsOf_append, List.append_eq_nil_iff] at hcommit
    exact hcommit.2
  · cases mid with
    | nil =>
      rw [List.nil_append] at htail
      rw [← htail] at hcommit
      exact hcommit
    | cons x mid =>
      rw [List.cons_append] at htail
      obtain ⟨rfl,rfl⟩ := htail
      rw [eventsOf_append, hs before mid hbefore, hcommit]
      rfl

end MachineSystem

namespace ControlLifecycle

def stopped (l : ControlLifecycle) : Prop := l = .cancelRequested ∨ l = .terminal

variable {l : ControlLifecycle}

theorem stopped_closing (h : l.stopped) : l.closing.stopped := by
  rcases h with rfl | rfl
  · exact .inl rfl
  · exact .inr rfl

theorem terminal_closing (h : l = .terminal) : l.closing = .terminal := by
  rw [h]
  rfl

end ControlLifecycle

namespace RuntimeError

/-- The error is not one that a mailbox cancelled meanwhile or a lifecycle moved on meanwhile would
cause. -/
def own : RuntimeError → Bool
  | .emittedRejected => false
  | .commitInvalid => false
  | _ => true

end RuntimeError

namespace MachineCall

variable {V : Type}

def settles : MachineCall V → Bool
  | .publishDone => true
  | .fail _ => true
  | _ => false

def quiet : MachineCall V → Bool
  | .answer _ => true
  | .unarm => true
  | .wake => true
  | .schedule _ => true
  | .post _ => true
  | .invoke _ _ => true
  | _ => false

end MachineCall

namespace MachineInstance

variable {V : Type}

/-- What a region outside `process_event` leaves alone, and how it moves the lifecycle on. -/
structure Aside (m n : MachineInstance V) : Prop where
  state : n.state = m.state
  stateValue : n.stateValue = m.stateValue
  completed : n.completed = m.completed
  failed : n.failed = m.failed
  cancelledInFlight : n.cancelledInFlight = m.cancelledInFlight
  inFlight : n.inFlight = m.inFlight
  stopped : m.lifecycle.stopped → n.lifecycle.stopped
  terminal : m.lifecycle = .terminal → n.lifecycle = .terminal
  done : (m.done = true → m.lifecycle = .terminal) → n.done = true → n.lifecycle = .terminal

def core (m : MachineInstance V) :
    (MachineState × V) × (Nat × Nat × Nat × Nat) × ControlLifecycle × Bool :=
  ((m.state, m.stateValue), (m.completed, m.failed, m.cancelledInFlight, m.inFlight), m.lifecycle,
    m.done)

theorem Aside.of_core {m n : MachineInstance V} (h : n.core = m.core) : Aside m n := by
  simp only [core, Prod.mk.injEq] at h
  obtain ⟨⟨hstate,hvalue⟩,⟨hcompleted,hfailed,hcancelled,hflight⟩,hlife,hdone⟩ := h
  refine ⟨hstate,hvalue,hcompleted,hfailed,hcancelled,hflight,?_,?_,?_⟩
  · rw [hlife]
    exact id
  · rw [hlife]
    exact id
  · rw [hlife, hdone]
    exact id

theorem close_aside (m : MachineInstance V) : Aside m m.close.1 := by
  unfold close
  split
  · exact ⟨rfl,rfl,rfl,rfl,rfl,rfl,fun _ => .inr rfl,fun _ => rfl,fun _ _ => rfl⟩
  · exact ⟨rfl,rfl,rfl,rfl,rfl,rfl,stopped_closing,
      terminal_closing,fun h hd => terminal_closing (h hd)⟩
  · exact ⟨rfl,rfl,rfl,rfl,rfl,rfl,stopped_closing,
      terminal_closing,fun h hd => terminal_closing (h hd)⟩

theorem requestCancel_aside (m : MachineInstance V) : Aside m m.requestCancel.1 := by
  unfold requestCancel
  split_ifs with hdone hrest
  · exact Aside.of_core rfl
  · exact ⟨rfl,rfl,rfl,rfl,rfl,rfl,fun _ => .inr rfl,fun _ => rfl,fun _ _ => rfl⟩
  simp only [Bool.or_eq_true, beq_iff_eq, not_or, Bool.not_eq_true] at hdone
  refine ⟨rfl,rfl,rfl,rfl,rfl,rfl,fun _ => .inl rfl,fun ht => absurd ht hdone.2,?_⟩
  intro _ hd
  rw [hdone.1] at hd
  cases hd

theorem requestCancel_stopped {m : MachineInstance V}
    (h : m.done = true → m.lifecycle = .terminal) : m.requestCancel.1.lifecycle.stopped := by
  unfold requestCancel
  split_ifs with hdone hrest
  · simp only [Bool.or_eq_true, beq_iff_eq] at hdone
    rcases hdone with hdone | hdone
    · exact .inr (h hdone)
    · exact .inr hdone
  · exact .inr rfl
  · exact .inl rfl

theorem failRuntime_aside (m : MachineInstance V) (r : RuntimeError) :
    Aside m (m.failRuntime r false) :=
  ⟨rfl,rfl,rfl,by simp [failRuntime],by simp [failRuntime],rfl,fun _ => .inr rfl,
    fun _ => rfl,fun _ _ => rfl⟩

def control (m : MachineInstance V) : Bool × Bool × ControlLifecycle × Option RuntimeError :=
  (m.closed, m.done, m.lifecycle, m.error)

/-- A region that leaves all but the waiters, the ready value and the marks of the task alone. -/
structure Light (m n : MachineInstance V) : Prop where
  core : n.core = m.core
  control : n.control = m.control
  mailbox : n.mailbox = m.mailbox
  initialized : n.mailboxInitialized = m.mailboxInitialized
  phase : n.workerPhase = m.workerPhase ∨ n.workerPhase ≠ .executing ∧ m.workerPhase ≠ .executing

theorem resume_light (m : MachineInstance V) : Light m m.resume.1 := by
  unfold resume
  split
  · exact ⟨rfl,rfl,rfl,rfl,.inl rfl⟩
  · exact ⟨rfl,rfl,rfl,rfl,.inl rfl⟩
  · split_ifs <;> exact ⟨rfl,rfl,rfl,rfl,.inl rfl⟩

theorem schedule_light (m : MachineInstance V) : Light m m.schedule.1 := by
  unfold schedule
  split_ifs with hready hidle
  · exact ⟨rfl,rfl,rfl,rfl,.inl rfl⟩
  · exact ⟨rfl,rfl,rfl,rfl,.inl rfl⟩
  · refine ⟨rfl,rfl,rfl,rfl,.inr ⟨nofun,?_⟩⟩
    rw [show m.workerPhase = .idle by simpa using hidle]
    decide

def plainEntry : MachineEntry V → Bool
  | .woken _ _ => true
  | .resumed _ => true
  | _ => false

/-- Everything a region or call outside the task can do: the instance behind it, the calls it leads
to and its entries. -/
inductive Calls (m : MachineInstance V) :
    MachineCall V → MachineInstance V → List (MachineCall V) → List (MachineEntry V) → Prop
  | light {k n calls new} (hk : k.settles = false) (hn : Light m n)
      (hcalls : ∀ x ∈ calls, x.quiet = true) (hnew : ∀ x ∈ new, plainEntry x = true) :
      Calls m k n calls new
  | sent {e mailbox taken} (hsend : m.mailbox.trySend e = (mailbox, .ok, taken)) :
      Calls m (.send e) { m with mailbox := mailbox } (woken taken) [.accepted e]
  | close : Calls m .close m.close.1 m.close.2 []
  | cancel : Calls m .cancel m.requestCancel.1 m.requestCancel.2 [.cancelRequested]
  | unarm : Calls m .unarm { m with mailbox := m.mailbox.waitCancel } [] []
  | cancelMailbox (b) : Calls m (.cancelMailbox b) { m with mailbox := m.mailbox.cancel.1 }
      (woken m.mailbox.cancel.2) []
  | rejected {caller r} (hr : r.own = true) :
      Calls m (.post caller) m [.unschedule caller r] [.postRejected]
  | unscheduled {caller r} : Calls m (.unschedule caller r) { m with workerPhase := .idle }
      (.fail r :: back caller false) []
  | failed (r) :
      Calls m (.fail r) (m.failRuntime r false) [.cancelMailbox .terminal, m.wakers] []
  | published : Calls m .publishDone m.publishDone [.cancelMailbox .terminal, m.wakers] []
  | armed : Calls m .arm { m with mailboxArmed := true } [.armCall] []
  | armCall (calls) (hcalls : ∀ x ∈ calls, x = .wake ∨ x = .armFailed) :
      Calls m .armCall { m with mailbox := m.mailbox.waitArm.1 } calls []
  | armFailed : Calls m .armFailed { m with mailboxArmed := false } [.fail .armFailed] []

section Calls

variable {m n : MachineInstance V} {k x : MachineCall V} {calls : List (MachineCall V)}
  {new : List (MachineEntry V)}

theorem woken_mem {taken : Bool} (hx : x ∈ woken taken) : x = .wake := by
  unfold woken at hx
  split_ifs at hx
  · simpa using hx
  · cases hx

variable {caller : ScheduleCaller}

theorem back_mem {ok : Bool} (hx : x ∈ back caller ok) : x = .answer ok := by
  unfold back at hx
  split at hx
  · simpa using hx
  · cases hx

theorem Calls.none (hk : k.settles = false) (hn : Light m n) : Calls m k n [] [] :=
  .light hk hn nofun nofun

theorem Calls.one (hk : k.settles = false) (hn : Light m n) (hx : x.quiet = true) :
    Calls m k n [x] [] := by
  refine .light hk hn ?_ nofun
  intro y hy
  rw [List.mem_singleton.1 hy]
  exact hx

theorem Calls.back {ok : Bool} (hk : k.settles = false)
    (hn : Light m n) : Calls m k n (back caller ok) [] := by
  refine .light hk hn ?_ nofun
  intro y hy
  rw [back_mem hy]
  rfl

theorem callStep_calls (m : MachineInstance V) (a : Admission) (k : MachineCall V) :
    Calls m k (m.callStep a k).1 (m.callStep a k).2.1 (m.callStep a k).2.2 := by
  have hsame : Light m m := ⟨rfl,rfl,rfl,rfl,.inl rfl⟩
  cases k with
  | send e =>
    simp only [callStep]
    split_ifs
    · split
      · rename_i mailbox taken heq
        exact .sent heq
      · exact .none rfl hsame
    · exact .none rfl hsame
  | resume =>
    have hn := m.resume_light
    simp only [callStep]
    split <;> rename_i heq <;> rw [heq] at hn
    · exact .light rfl hn nofun (by simp [plainEntry])
    · exact .one rfl hn rfl
  | answer ok => exact .light rfl hsame nofun (by simp [callStep, plainEntry])
  | waitArm =>
    simp only [callStep, waitArm]
    split_ifs
    · exact .one rfl hsame rfl
    · exact .none rfl hsame
    · exact .none rfl ⟨rfl,rfl,rfl,rfl,.inl rfl⟩
  | waitCancel => exact .none rfl ⟨rfl,rfl,rfl,rfl,.inl rfl⟩
  | bindTerminal =>
    simp only [callStep, bindTerminal]
    split_ifs
    · exact .one rfl ⟨rfl,rfl,rfl,rfl,.inl rfl⟩ rfl
    · exact .none rfl ⟨rfl,rfl,rfl,rfl,.inl rfl⟩
  | close => exact .close
  | cancel => exact .cancel
  | unarm => exact .unarm
  | cancelMailbox b =>
    simp only [callStep]
    split_ifs
    · exact .cancelMailbox b
    · exact .none rfl hsame
  | wake => exact .one rfl ⟨rfl,rfl,rfl,rfl,.inl rfl⟩ rfl
  | schedule caller =>
    have hn := m.schedule_light
    simp only [callStep]
    split <;> rename_i heq <;> rw [heq] at hn
    · exact .one rfl hn rfl
    · exact .back rfl hn
  | post caller =>
    simp only [callStep]
    split
    · exact .back rfl ⟨rfl,rfl,rfl,rfl,.inl rfl⟩
    · exact .rejected rfl
    · exact .rejected rfl
  | unschedule caller r => exact .unscheduled
  | fail r => exact .failed r
  | publishDone => exact .published
  | arm =>
    simp only [callStep]
    split_ifs
    · exact .none rfl hsame
    · exact .armed
  | armCall =>
    have hcalls := Calls.armCall (m := m)
    simp only [callStep]
    split <;> rename_i heq <;> rw [heq] at hcalls <;> exact hcalls _ (by simp)
  | armFailed => exact .armFailed
  | invoke d t => exact .light rfl hsame nofun (by simp [callStep, plainEntry])

theorem Calls.aside (h : Calls m k n calls new) : Aside m n := by
  cases h with
  | light _ hn => exact Aside.of_core hn.core
  | close => exact close_aside m
  | cancel => exact requestCancel_aside m
  | failed r => exact failRuntime_aside m r
  | published =>
    exact ⟨rfl,rfl,rfl,rfl,rfl,rfl,fun _ => .inr rfl,fun _ => rfl,fun _ _ => rfl⟩
  | _ => exact Aside.of_core rfl

theorem close_mailbox (m : MachineInstance V) : m.close.1.mailbox = m.mailbox := by
  unfold MachineInstance.close
  split <;> rfl

theorem requestCancel_mailbox (m : MachineInstance V) : m.requestCancel.1.mailbox = m.mailbox := by
  unfold requestCancel
  split_ifs <;> rfl

def idleEntry : MachineEntry V → Prop
  | .accepted _ => True
  | .cancelRequested => True
  | .postRejected => True
  | .woken _ _ => True
  | .resumed _ => True
  | _ => False

theorem Calls.idle (h : Calls m k n calls new) : ∀ x ∈ new, idleEntry x := by
  cases h with
  | light _ _ _ hnew =>
    intro x hx
    have hplain := hnew x hx
    cases x <;> simp_all [plainEntry, idleEntry]
  | _ => simp [idleEntry]

theorem Calls.cancelRequested (h : Calls m k n calls new) (hmem : .cancelRequested ∈ new) :
    n = m.requestCancel.1 := by
  cases h with
  | light _ _ _ hnew => cases hnew _ hmem
  | cancel => rfl
  | _ => simp at hmem

theorem Calls.capacity (h : Calls m k n calls new) : n.mailbox.capacity = m.mailbox.capacity := by
  cases h with
  | light _ hn => rw [hn.mailbox]
  | @sent e _ _ hsend =>
    have hcap := Mailbox.capacity_trySend (m := m.mailbox) (e := e)
    rw [hsend] at hcap
    exact hcap
  | close => rw [close_mailbox]
  | cancel => rw [requestCancel_mailbox]
  | cancelMailbox b =>
    show m.mailbox.cancel.1.capacity = _
    unfold Mailbox.cancel
    split_ifs <;> rfl
  | armCall =>
    show m.mailbox.waitArm.1.capacity = _
    unfold Mailbox.waitArm
    split_ifs <;> rfl
  | _ => rfl

theorem eventsOf_plain (hnew : ∀ x ∈ new, plainEntry x = true) : eventsOf [.accepted] new = [] := by
  refine List.filterMap_eq_nil_iff.2 fun x hx => ?_
  have hplain := hnew x hx
  cases x <;> first | rfl | cases hplain

theorem Calls.accepted (h : Calls m k n calls new) :
    eventsOf [.accepted] new = [] ∨ ∃ e, (m.mailbox.trySend e).2.1 = .ok := by
  cases h with
  | light _ _ _ hnew => exact .inl (eventsOf_plain hnew)
  | @sent e _ _ hsend => exact .inr ⟨e,by rw [hsend]⟩
  | _ => exact .inl rfl

theorem Calls.tracks {acc rec : List (Event V)} (hm : m.mailbox.Tracks acc rec)
    (h : Calls m k n calls new) : n.mailbox.Tracks (acc ++ eventsOf [.accepted] new) rec := by
  have hnil : m.mailbox.Tracks (acc ++ []) rec := by
    rw [append_nil]
    exact hm
  cases h with
  | light _ hn _ hnew =>
    rw [eventsOf_plain hnew, hn.mailbox]
    exact hnil
  | sent hsend =>
    have hsent := hm.trySend (by rw [hsend])
    rw [hsend] at hsent
    exact hsent
  | close =>
    rw [close_mailbox]
    exact hnil
  | cancel =>
    rw [requestCancel_mailbox]
    exact hnil
  | cancelMailbox b => simpa using hm.cancel
  | armCall calls hcalls => simpa using hm.waitArm
  | _ => exact hnil

end Calls

end MachineInstance

namespace MachineConfig

variable {V : Type}

def run (c : MachineConfig V) (events : List (Event V)) : Option (MachineState × V) :=
  events.foldlM c.fire (c.machine.initial, c.initialState)

theorem run_append_singleton (c : MachineConfig V) (events : List (Event V)) (e : Event V) :
    c.run (events ++ [e]) = (c.run events).bind fun s => c.fire s e := by
  unfold run
  rw [List.foldlM_append]
  cases events.foldlM c.fire (c.machine.initial,c.initialState) with
  | none => rfl
  | some s => simp

/-- What the history says against an event: no transition fires on it in the state that the events
before have led to, or the mailbox has no room for the event its action emits. -/
def Blames (c : MachineConfig V) (h : List (MachineEntry V)) (e : Event V) : Prop :=
  (∃ s, c.run (eventsOf EntryKind.committed h) = some s ∧ c.fire s e = none) ∨
    (eventsOf [.accepted] h).length = (eventsOf [.received] h).length + c.mailboxCapacity

end MachineConfig

namespace TaskPoint

variable {V : Type}

def event : TaskPoint V → Option (Event V)
  | .count _ e => some e
  | .settle _ e _ => some e
  | .select _ e => some e
  | .act _ e _ _ => some e
  | .readClosed _ e _ => some e
  | .emit _ e _ => some e
  | .commit _ e _ => some e
  | .failing _ e _ => some e
  | _ => none

def Sound (c : MachineConfig V) (m : MachineInstance V) (h : List (MachineEntry V)) :
    TaskPoint V → Prop
  | .settle _ e (.failing r) => r.own = true → c.Blames h e
  | .failing _ e r => r.own = true → c.Blames h e
  | .settle _ e (.act t error) =>
    ∃ k, c.selectTransition m.state m.stateValue e.id e.payload = .ok (k, t, error)
  | .act _ e t error =>
    ∃ k, c.selectTransition m.state m.stateValue e.id e.payload = .ok (k, t, error)
  | .settle _ e (.staged t staged) =>
    ∃ k error, c.selectTransition m.state m.stateValue e.id e.payload = .ok (k, t, error) ∧
      c.runAction t m.stateValue e.payload error = .ok staged
  | .readClosed _ e p => c.fire (m.state, m.stateValue) e = some (p.target, p.staged.value)
  | .emit _ e p => c.fire (m.state, m.stateValue) e = some (p.target, p.staged.value)
  | .commit _ e p => c.fire (m.state, m.stateValue) e = some (p.target, p.staged.value)
  | _ => True

theorem Sound.of_state {c : MachineConfig V} {m n : MachineInstance V} {p : TaskPoint V}
    {h : List (MachineEntry V)} (hs : p.Sound c m h) (hstate : n.state = m.state)
    (hvalue : n.stateValue = m.stateValue) : p.Sound c n h := by
  unfold Sound at hs ⊢
  rw [hstate, hvalue]
  exact hs

end TaskPoint

namespace MachineInstance

open MachineSystem

variable {V : Type} {c : MachineConfig V} {m n : MachineInstance V} {o o' : Option (TaskPoint V)}
  {h : List (MachineEntry V)}

structure Books (c : MachineConfig V) (m : MachineInstance V) (o : Option (TaskPoint V))
    (h : List (MachineEntry V)) : Prop where
  tracks : m.mailbox.Tracks (eventsOf [.accepted] h) (eventsOf [.received] h)
  completed : m.completed = min (eventsOf [.completed] h).length uint64Max
  failed : m.failed = min ((eventsOf [.entered] h).length + (eventsOf [.failed] h).length) uint64Max
  cancelled : m.cancelledInFlight = min (eventsOf [.cancelled] h).length uint64Max
  carried : eventsOf [.received] h = eventsOf EntryKind.settled h ++ (o.bind TaskPoint.event).toList
  done : m.done = true → m.lifecycle = .terminal
  stopped : .cancelRequested ∈ h → m.lifecycle.stopped
  silent : Silent h
  ordered : eventsOf EntryKind.committed h = eventsOf [.completed] h ++ eventsOf [.entered] h
  last : eventsOf [.entered] h ≠ [] → m.lifecycle = .terminal
  once : (eventsOf [.entered] h).length ≤ 1
  fold : c.run (eventsOf EntryKind.committed h) = some (m.state, m.stateValue)
  sound : ∀ p, o = some p → p.Sound c m h
  room : m.mailbox.capacity = c.mailboxCapacity
  blamed : ∀ before after e r, h = before ++ .failed e r :: after → r.own = true → c.Blames before e

theorem books_init (c : MachineConfig V) : Books c (init c) none [] := by
  have htracks : (init c).mailbox.Tracks [] [] := by
    have hnew : ({ schema := c.machine.events, capacity := c.mailboxCapacity } : Mailbox V).Tracks
        [] [] := ⟨rfl,rfl,[],rfl,rfl,fun _ => rfl⟩
    unfold init
    dsimp only
    split_ifs
    · exact hnew
    · exact hnew.cancel
  refine ⟨htracks,rfl,rfl,rfl,rfl,?_,?_,?_,rfl,?_,Nat.zero_le _,rfl,?_,?_,by simp⟩
  · intro hdone
    have hkind : c.machine.initial.kind ≠ .active := by simpa [init] using hdone
    simp [init, hkind]
  · intro hmem
    cases hmem
  · intro before after heq
    simp at heq
  · intro hne
    exact absurd rfl hne
  · intro p hp
    cases hp
  · unfold init Mailbox.cancel
    dsimp only
    split_ifs <;> rfl

theorem Books.blamed_append (hb : Books c m o h) {k : List (MachineEntry V)}
    (hk : ∀ e r, .failed e r ∈ k → r.own = true → k = [.failed e r] ∧ c.Blames h e) :
    ∀ before after e r, h ++ k = before ++ .failed e r :: after → r.own = true →
      c.Blames before e := by
  intro before after e r heq hown
  rcases List.append_eq_append_iff.1 heq with ⟨mid,rfl,htail⟩ | ⟨mid,hbefore,htail⟩
  · obtain ⟨hsingle,hblames⟩ := hk e r (by rw [htail]; simp) hown
    rw [hsingle] at htail
    cases mid with
    | nil => simpa using hblames
    | cons x mid => simp at htail
  · cases mid with
    | nil =>
      obtain ⟨-,hblames⟩ := hk e r (by rw [List.nil_append] at htail; rw [← htail]; simp) hown
      rw [append_nil] at hbefore
      exact hbefore ▸ hblames
    | cons x mid =>
      obtain ⟨rfl,-⟩ := List.cons.inj htail
      exact hb.blamed before mid e r hbefore hown

theorem Books.accepted_length (hb : Books c m o h) (hopen : m.mailbox.terminal ≠ .cancelled) :
    (eventsOf [.accepted] h).length = (eventsOf [.received] h).length + m.mailbox.queue.length := by
  obtain ⟨-,-,dropped,hall,-,hdropped⟩ := hb.tracks
  rw [hall, hdropped hopen, append_nil, List.length_append]

theorem Books.move (hb : Books c m o h) (hstate : n.state = m.state)
    (hvalue : n.stateValue = m.stateValue) (hcompleted : n.completed = m.completed)
    (hfailed : n.failed = m.failed) (hcancelled : n.cancelledInFlight = m.cancelledInFlight)
    (hlife : n.lifecycle = m.lifecycle) (hdone : n.done = m.done) (hmail : n.mailbox = m.mailbox)
    (hevent : o'.bind TaskPoint.event = o.bind TaskPoint.event)
    (hsound : ∀ p, o' = some p → p.Sound c n h) : Books c n o' h := by
  refine ⟨hmail ▸ hb.tracks,hcompleted.trans hb.completed,hfailed.trans hb.failed,
    hcancelled.trans hb.cancelled,?_,?_,?_,hb.silent,hb.ordered,?_,hb.once,?_,hsound,
    hmail ▸ hb.room,hb.blamed⟩
  · rw [hevent]
    exact hb.carried
  · rw [hdone, hlife]
    exact hb.done
  · rw [hlife]
    exact hb.stopped
  · rw [hlife]
    exact hb.last
  · rw [hstate, hvalue]
    exact hb.fold

theorem eventsOf_idle {k : List (MachineEntry V)} (hk : ∀ x ∈ k, idleEntry x)
    (kinds : List EntryKind) (hkinds : .accepted ∉ kinds) : eventsOf kinds k = [] := by
  unfold eventsOf
  rw [List.filterMap_eq_nil_iff]
  intro x hx
  have hidle := hk x hx
  cases x <;> simp_all [idleEntry]

theorem Books.blames_call (hb : Books c m o h) {k : MachineCall V} {calls : List (MachineCall V)}
    {new : List (MachineEntry V)} (hc : Calls m k n calls new) {e : Event V}
    (h' : c.Blames h e) : c.Blames (h ++ new) e := by
  have hidle := eventsOf_idle hc.idle
  refine h'.imp ?_ fun hfull => ?_
  · rw [eventsOf_append, hidle _ (by decide), append_nil]
    exact id
  · rw [eventsOf_append, eventsOf_append, hidle [.received] (by decide), append_nil]
    rcases hc.accepted with hnone | ⟨sent,hsent⟩
    · rw [hnone, append_nil]
      exact hfull
    · obtain ⟨hroom,hopen⟩ := Mailbox.trySend_room hsent
      have hlength := hb.accepted_length hopen
      have hcap := hb.room
      omega

theorem Books.call (hb : Books c m o h) (a : Admission) (k : MachineCall V) :
    Books c (m.callStep a k).1 o (h ++ (m.callStep a k).2.2) := by
  have hcalls := callStep_calls m a k
  have haside := hcalls.aside
  have hidle := eventsOf_idle hcalls.idle
  have hreceived := hidle [.received] (by decide)
  have hcompleted := hidle [.completed] (by decide)
  have hentered := hidle [.entered] (by decide)
  have hfailed := hidle [.failed] (by decide)
  have hcancelled := hidle [.cancelled] (by decide)
  have hsettled := hidle EntryKind.settled (by decide)
  have hcommitted := hidle EntryKind.committed (by decide)
  refine ⟨?_,?_,?_,?_,?_,haside.done hb.done,?_,?_,?_,?_,?_,?_,?_,
    hcalls.capacity.trans hb.room,hb.blamed_append fun e r hmem _ => (hcalls.idle _ hmem).elim⟩
  · rw [eventsOf_append, eventsOf_append, hreceived, append_nil]
    exact hcalls.tracks hb.tracks
  · rw [eventsOf_append, hcompleted, append_nil, haside.completed]
    exact hb.completed
  · rw [eventsOf_append, eventsOf_append, hentered, hfailed, append_nil, append_nil,
      haside.failed]
    exact hb.failed
  · rw [eventsOf_append, hcancelled, append_nil, haside.cancelledInFlight]
    exact hb.cancelled
  · rw [eventsOf_append, eventsOf_append, hreceived, hsettled, append_nil, append_nil]
    exact hb.carried
  · intro hmem
    rcases List.mem_append.1 hmem with hmem | hmem
    · exact haside.stopped (hb.stopped hmem)
    · rw [hcalls.cancelRequested hmem]
      exact requestCancel_stopped hb.done
  · exact hb.silent.append (.inl hcommitted)
  · rw [eventsOf_append, eventsOf_append, eventsOf_append, hcommitted, hcompleted, hentered]
    simpa using hb.ordered
  · rw [eventsOf_append, hentered, append_nil]
    intro hne
    exact haside.terminal (hb.last hne)
  · rw [eventsOf_append, hentered, append_nil]
    exact hb.once
  · rw [eventsOf_append, hcommitted, append_nil, haside.state, haside.stateValue]
    exact hb.fold
  · intro p hp
    refine TaskPoint.Sound.of_state ?_ haside.state haside.stateValue
    have hs := hb.sound p hp
    unfold TaskPoint.Sound at hs ⊢
    split at hs
    · exact fun hown => hb.blames_call hcalls (hs hown)
    · exact fun hown => hb.blames_call hcalls (hs hown)
    all_goals exact hs

end MachineInstance

end Salts.CFlow
