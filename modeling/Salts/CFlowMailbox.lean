import Mathlib.Algebra.Group.Nat.Defs
import Mathlib.Data.List.Infix

/-!
The bounded mailbox of `event.c`: a typed queue with a waiter, whose counters stop at `UINT64_MAX`.
The ring of slots is the list of its events from the head on.
-/

namespace Salts.CFlow

def uint64Max : Nat := 2 ^ 64 - 1

def counterIncrement (counter : Nat) : Nat := if counter ≠ uint64Max then counter + 1 else counter

def counterAddSize (counter amount : Nat) : Nat :=
  if uint64Max - counter < amount then uint64Max else counter + amount

theorem counterIncrement_min (n : Nat) :
    counterIncrement (min n uint64Max) = min (n + 1) uint64Max := by
  unfold counterIncrement
  split <;> omega

theorem counterAddSize_min (n m : Nat) :
    counterAddSize (min n uint64Max) m = min (n + m) uint64Max := by
  unfold counterAddSize
  split <;> omega

/-- The binary search by identifier that the rows of a machine and the schema of a mailbox are
looked up with.  `fuel` bounds the number of halvings. -/
def searchIds (id : Nat) (ids : List Nat) : (fuel left right : Nat) → Option Nat
  | 0, _, _ => none
  | fuel + 1, left, right =>
    if left < right then
      let middle := left + (right - left) / 2
      let key := ids.getD middle 0
      if key = id then some middle
      else if key < id then searchIds id ids fuel (middle + 1) right
      else searchIds id ids fuel left middle
    else none

def findRow {β : Type} (key : β → Nat) (rows : List β) (id : Nat) : Option β :=
  (searchIds id (rows.map key) rows.length 0 rows.length).bind fun i => rows[i]?

structure EventType where
  id : Nat
  payloadType : Nat

/-- `cflow_event_view`, with the bytes of its payload. -/
structure Event (V : Type) where
  id : Nat
  payloadType : Nat
  payload : V
  deriving DecidableEq

inductive MailboxTerminal where
  | opened
  | draining
  | cancelled
  deriving DecidableEq

inductive MailboxStatus where
  | ok
  | invalidArgument
  | typeMismatch
  | full
  | empty
  | closed
  | cancelled
  deriving DecidableEq

/-- `cflow_mailbox_impl`. -/
structure Mailbox (V : Type) where
  schema : List EventType
  capacity : Nat
  queue : List (Event V) := []
  accepted : Nat := 0
  received : Nat := 0
  cancelled : Nat := 0
  terminal : MailboxTerminal := .opened
  waiter : Bool := false

namespace Mailbox

variable {V : Type}

def eventType (schema : List EventType) (id : Nat) : Option EventType :=
  if id = 0 then none else findRow EventType.id schema id

/-- `cflow_mailbox_try_send_detach_internal`: the status and whether a waiter was taken. -/
def trySend (m : Mailbox V) (e : Event V) : Mailbox V × MailboxStatus × Bool :=
  match eventType m.schema e.id with
  | none => (m, .invalidArgument, false)
  | some row =>
    if row.payloadType ≠ e.payloadType then (m, .typeMismatch, false)
    else if m.terminal = .cancelled then (m, .cancelled, false)
    else if m.terminal = .draining then (m, .closed, false)
    else if m.queue.length = m.capacity then (m, .full, false)
    else
      ({ m with queue := m.queue ++ [e], accepted := counterIncrement m.accepted, waiter := false },
        .ok, m.waiter)

/-- `cflow_mailbox_try_receive` into storage that fits every payload of the schema. -/
def tryReceive (m : Mailbox V) : Mailbox V × MailboxStatus × Option (Event V) :=
  match m.queue with
  | [] =>
    (m, match m.terminal with
      | .cancelled => .cancelled
      | .draining => .closed
      | .opened => .empty, none)
  | e :: rest => ({ m with queue := rest, received := counterIncrement m.received }, .ok, some e)

def cancel (m : Mailbox V) : Mailbox V × Bool :=
  if m.terminal = .cancelled then (m, false)
  else
    ({ m with
        terminal := .cancelled
        cancelled := counterAddSize m.cancelled m.queue.length
        queue := []
        waiter := false },
      m.waiter)

inductive Armed where
  | woken
  | waiting
  | refused
  deriving DecidableEq

def waitArm (m : Mailbox V) : Mailbox V × Armed :=
  if m.queue ≠ [] ∨ m.terminal ≠ .opened then (m, .woken)
  else if m.waiter then (m, .refused)
  else ({ m with waiter := true }, .waiting)

def waitCancel (m : Mailbox V) : Mailbox V := { m with waiter := false }

variable {m : Mailbox V} {acc rec : List (Event V)}

/-- The mailbox has accepted `acc` and handed out `rec`: what is left of `acc` is in the queue or
was dropped when the mailbox was cancelled. -/
def Tracks (m : Mailbox V) (acc rec : List (Event V)) : Prop :=
  m.accepted = min acc.length uint64Max ∧ m.received = min rec.length uint64Max ∧
    ∃ dropped, acc = rec ++ m.queue ++ dropped ∧
      m.cancelled = min dropped.length uint64Max ∧ (m.terminal ≠ .cancelled → dropped = [])

variable {e : Event V}

theorem Tracks.trySend (h : m.Tracks acc rec) (hs : (m.trySend e).2.1 = .ok) :
    (m.trySend e).1.Tracks (acc ++ [e]) rec := by
  obtain ⟨hacc,hrec,dropped,hall,hcancelled,hdropped⟩ := h
  unfold Mailbox.trySend at hs ⊢
  split at hs
  · simp at hs
  rename_i row hrow
  -- The event is queued only in the last branch, where nothing was dropped.
  split_ifs at hs ⊢ with htype hterm hdrain hfull
  have hnil := hdropped hterm
  subst hnil
  refine ⟨?_,hrec,[],?_,hcancelled,fun _ => rfl⟩
  · simp [hacc, counterIncrement_min]
  · simp [hall]

theorem trySend_of_ne_ok (hs : (m.trySend e).2.1 ≠ .ok) : (m.trySend e).1 = m := by
  unfold Mailbox.trySend at hs ⊢
  split
  · rfl
  · split_ifs <;> simp_all

section

variable (h : m.Tracks acc rec)

include h

theorem Tracks.tryReceive (hs : (m.tryReceive).2.2 = some e) :
    (m.tryReceive).1.Tracks acc (rec ++ [e]) := by
  obtain ⟨hacc,hrec,dropped,hall,hcancelled,hdropped⟩ := h
  unfold Mailbox.tryReceive at hs ⊢
  split at hs
  · simp at hs
  rename_i head rest hqueue
  obtain rfl : head = e := by simpa using hs
  refine ⟨hacc,?_,dropped,?_,hcancelled,hdropped⟩
  · simp [hrec, counterIncrement_min]
  · simp [hall, hqueue]

theorem Tracks.cancel : m.cancel.1.Tracks acc rec := by
  obtain ⟨hacc,hrec,dropped,hall,hcancelled,hdropped⟩ := h
  unfold Mailbox.cancel
  split
  · exact ⟨hacc,hrec,dropped,hall,hcancelled,hdropped⟩
  rename_i hterm
  have hnil := hdropped hterm
  subst hnil
  refine ⟨hacc,hrec,m.queue,by simp [hall],?_,by simp⟩
  have hzero : m.cancelled = min 0 uint64Max := hcancelled
  simp only [hzero, counterAddSize_min, Nat.zero_add]

theorem Tracks.waiter (b : Bool) : ({ m with waiter := b } : Mailbox V).Tracks acc rec := h

theorem Tracks.waitArm : m.waitArm.1.Tracks acc rec := by
  unfold Mailbox.waitArm
  split_ifs
  · exact h
  · exact h
  · exact h.waiter true

end

@[simp] theorem terminal_waitArm : m.waitArm.1.terminal = m.terminal := by
  unfold Mailbox.waitArm
  split_ifs <;> rfl

@[simp] theorem terminal_trySend : (m.trySend e).1.terminal = m.terminal := by
  unfold Mailbox.trySend
  split
  · rfl
  · split_ifs <;> rfl

@[simp] theorem schema_trySend : (m.trySend e).1.schema = m.schema := by
  unfold Mailbox.trySend
  split
  · rfl
  · split_ifs <;> rfl

theorem capacity_trySend : (m.trySend e).1.capacity = m.capacity := by
  unfold Mailbox.trySend
  split
  · rfl
  · split_ifs <;> rfl

theorem capacity_tryReceive : m.tryReceive.1.capacity = m.capacity := by
  unfold Mailbox.tryReceive
  split <;> rfl

theorem trySend_room (h : (m.trySend e).2.1 = .ok) :
    m.queue.length ≠ m.capacity ∧ m.terminal ≠ .cancelled := by
  unfold Mailbox.trySend at h
  split at h
  · cases h
  · split_ifs at h with htype hterminal hdrain hfull
    exact ⟨hfull,hterminal⟩

theorem trySend_full (h : (m.trySend e).2.1 = .full) :
    m.queue.length = m.capacity ∧ m.terminal ≠ .cancelled := by
  unfold Mailbox.trySend at h
  split at h
  · cases h
  · split_ifs at h with htype hterminal hdrain hfull
    exact ⟨hfull,hterminal⟩

def Emptied (m : Mailbox V) : Prop := m.terminal = .cancelled → m.queue = []

theorem Emptied.trySend (h : m.Emptied) (e : Event V) : (m.trySend e).1.Emptied := by
  unfold Mailbox.trySend
  split
  · exact h
  split_ifs with htype hterminal hdrain hfull
  · exact h
  · exact h
  · exact h
  · exact h
  · exact fun hc => absurd hc hterminal

theorem Emptied.cancel (h : m.Emptied) : m.cancel.1.Emptied := by
  unfold Mailbox.cancel
  split_ifs
  · exact h
  · exact fun _ => rfl

theorem Emptied.waitArm (h : m.Emptied) : m.waitArm.1.Emptied := by
  unfold Mailbox.waitArm
  split_ifs <;> exact h

theorem Emptied.tryReceive (h : m.Emptied) (hs : m.tryReceive.2.2 = some e) :
    m.terminal ≠ .cancelled := by
  intro hterminal
  simp [Mailbox.tryReceive, h hterminal] at hs

@[simp] theorem schema_cancel : m.cancel.1.schema = m.schema := by
  unfold Mailbox.cancel
  split_ifs <;> rfl

@[simp] theorem terminal_cancel : m.cancel.1.terminal = .cancelled := by
  unfold Mailbox.cancel
  split_ifs with hterminal
  · exact hterminal
  · rfl

@[simp] theorem schema_waitArm : m.waitArm.1.schema = m.schema := by
  unfold Mailbox.waitArm
  split_ifs <;> rfl

@[simp] theorem schema_tryReceive : m.tryReceive.1.schema = m.schema := by
  unfold Mailbox.tryReceive
  split <;> rfl

@[simp] theorem terminal_tryReceive : m.tryReceive.1.terminal = m.terminal := by
  unfold Mailbox.tryReceive
  split <;> rfl

theorem Tracks.in_order (h : m.Tracks acc rec) : rec <+: acc := by
  obtain ⟨-,-,dropped,hall,-,-⟩ := h
  exact ⟨m.queue ++ dropped,by rw [hall, List.append_assoc]⟩

theorem Tracks.balance (h : m.Tracks acc rec) (hlt : m.accepted < uint64Max) :
    m.accepted = m.received + m.queue.length + m.cancelled ∧ m.received = rec.length := by
  obtain ⟨hacc,hrec,dropped,hall,hcancelled,-⟩ := h
  have hlength : acc.length = rec.length+m.queue.length+dropped.length := by
    rw [hall, List.length_append, List.length_append]
  omega

end Mailbox

end Salts.CFlow
