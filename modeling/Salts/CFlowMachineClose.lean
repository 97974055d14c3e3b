import Salts.CFlowMachineAccounts

/-!
A close of a machine instance against the event in flight.  The task reads `closed` under the lock
and emits the event of its action to the mailbox behind it; a close that cancels the mailbox in
between fails the event.  In every run without such a close, an event fails for its own reasons or
because the executor refused a task, and a closed instance ends done.
-/

namespace Salts.CFlow

open List (mem_append mem_append_left mem_cons mem_singleton not_mem_nil)
open Mailbox
open ControlLifecycle

namespace MachineConfig

variable {V : Type} {c : MachineConfig V}

def Staged.Wellformed (c : MachineConfig V) (staged : Staged V) : Prop :=
  ∀ a, staged.action = some a →
    a ∈ c.machine.actions ∧ (a.observation ≠ .none → ∃ v, staged.observation = some v)

theorem runAction_wellformed {t : MachineTransition} {value event : V} {error : Option String}
    {staged : Staged V} (h : c.runAction t value event error = .ok staged) :
    staged.Wellformed c := by
  unfold runAction at h
  split_ifs at h
  · cases h
    intro a ha
    cases ha
  · split at h
    · rename_i action binding haction hbinding
      have hmem : action ∈ c.machine.actions := by
        unfold findActionDeclaration findRow at haction
        rw [Option.bind_eq_some_iff] at haction
        obtain ⟨i,-,hi⟩ := haction
        exact List.mem_of_getElem? hi
      dsimp only at h
      split_ifs at h with hok hobs
      · cases h
        intro a ha
        cases ha
        exact ⟨hmem,fun hne => absurd hobs hne⟩
      · cases h
        intro a ha
        cases ha
        exact ⟨hmem,fun _ => ⟨_,rfl⟩⟩
    · cases h

end MachineConfig

namespace TaskPoint

variable {V : Type}

/-- The points between the head of the loop and the end of the event, where the phase is
EXECUTING. -/
def executing : TaskPoint V → Bool
  | .receive _ => true
  | .empty _ => true
  | .count _ _ => true
  | .settle _ _ _ => true
  | .select _ _ => true
  | .act _ _ _ _ => true
  | .readClosed _ _ _ => true
  | .emit _ _ _ => true
  | .commit _ _ _ => true
  | .failing _ _ _ => true
  | _ => false

def staged : TaskPoint V → Option (MachineConfig.Staged V)
  | .settle _ _ (.staged _ st) => some st
  | .readClosed _ _ p => some p.staged
  | .emit _ _ p => some p.staged
  | .commit _ _ p => some p.staged
  | _ => none

def reason : TaskPoint V → Option RuntimeError
  | .settle _ _ (.failing r) => some r
  | .failing _ _ r => some r
  | _ => none

def emits : TaskPoint V → Option (Prepared V)
  | .readClosed _ _ p => some p
  | .emit _ _ p => some p
  | _ => none

end TaskPoint

namespace ControlLifecycle

def requested (l : ControlLifecycle) : Prop := l = .closeRequested ∨ l = .cancelRequested

theorem closing_ne_opened (l : ControlLifecycle) : l.closing ≠ .opened := by
  cases l <;> decide

theorem terminal_of_closing {l : ControlLifecycle} (h : l.closing = .terminal) : l = .terminal := by
  cases l <;> first | rfl | cases h

end ControlLifecycle

namespace MachineCall

variable {V : Type} {h k : List (MachineEntry V)} {m n : MachineInstance V}

def Pending (m : MachineInstance V) (h : List (MachineEntry V)) : MachineCall V → Prop
  | .cancelMailbox .close => m.closed = true
  | .fail r => r.own = true ∨ .postRejected ∈ h
  | .unschedule _ r => r.own = true
  | _ => True

def Harmless (m : MachineInstance V) (h : List (MachineEntry V)) : MachineCall V → Prop
  | .cancelMailbox .terminal => m.lifecycle.stopped
  | .fail _ => .postRejected ∈ h
  | .unschedule _ _ => .postRejected ∈ h
  | .publishDone => False
  | .arm => False
  | .armCall => False
  | .armFailed => False
  | _ => True

theorem Pending.mono {x : MachineCall V} (hx : x.Pending m h)
    (hclosed : m.closed = true → n.closed = true) : x.Pending n (h ++ k) := by
  unfold Pending at hx ⊢
  split at hx
  · exact hclosed hx
  · exact hx.imp id (mem_append_left k)
  · exact hx
  · exact hx

theorem Harmless.mono {x : MachineCall V} (hx : x.Harmless m h)
    (hstopped : m.lifecycle.stopped → n.lifecycle.stopped) : x.Harmless n (h ++ k) := by
  unfold Harmless at hx ⊢
  split at hx
  · exact hstopped hx
  · exact mem_append_left k hx
  · exact mem_append_left k hx
  · exact hx
  · exact hx
  · exact hx
  · exact hx
  · exact hx

end MachineCall

namespace MachineInstance

variable {V : Type} {m : MachineInstance V} {h : List (MachineEntry V)} {a : Admission}
  {k : MachineCall V}

theorem unarms_mem {x : MachineCall V} (hx : x ∈ m.unarms) : x = .unarm := by
  unfold unarms at hx
  split_ifs at hx
  · simpa using hx
  · cases hx

theorem close_closed (m : MachineInstance V) : m.close.1.closed = true := by
  unfold close
  split <;> rfl

theorem close_calls {x : MachineCall V} (hx : x ∈ m.close.2) :
    x = .unarm ∨ x = .cancelMailbox .close ∨ x = m.wakers := by
  unfold close at hx
  split at hx <;> simp only [mem_append, mem_cons, not_mem_nil, or_false] at hx <;>
    rcases hx with hx | hx
  all_goals first
    | exact .inl (unarms_mem hx)
    | exact .inr hx
    | exact .inr (.inl hx)

theorem requestCancel_calls {x : MachineCall V} (hx : x ∈ m.requestCancel.2) :
    x = .unarm ∨ (x = .cancelMailbox .terminal ∧ m.requestCancel.1.lifecycle.stopped) ∨
      x = m.wakers := by
  unfold requestCancel at hx ⊢
  split_ifs at hx ⊢
  · cases hx
  · simp only [mem_append, mem_cons, not_mem_nil, or_false] at hx
    rcases hx with hx | hx | hx
    · exact .inl (unarms_mem hx)
    · exact .inr (.inl ⟨hx,.inr rfl⟩)
    · exact .inr (.inr hx)
  · simp only [mem_append, mem_cons, not_mem_nil, or_false] at hx
    rcases hx with hx | hx
    · exact .inl (unarms_mem hx)
    · exact .inr (.inl ⟨hx,.inl rfl⟩)

section Calls

variable {n : MachineInstance V} {x : MachineCall V} {calls : List (MachineCall V)}
  {new : List (MachineEntry V)}

theorem quiet_calm (hx : x.quiet = true) : x.Pending n h ∧ x.Harmless n h := by
  cases x <;> first | exact ⟨trivial,trivial⟩ | cases hx

theorem Calls.calm (hc : Calls m k n calls new) (hx : x ∈ calls) :
    (k.Pending m h → x.Pending n (h ++ new)) ∧ (k.Harmless m h → x.Harmless n (h ++ new)) := by
  have hquiet (hq : x.quiet = true) : (k.Pending m h → x.Pending n (h ++ new)) ∧
      (k.Harmless m h → x.Harmless n (h ++ new)) :=
    ⟨fun _ => (quiet_calm hq).1,fun _ => (quiet_calm hq).2⟩
  cases hc with
  | light _ _ hcalls => exact hquiet (hcalls x hx)
  | sent | cancelMailbox => exact hquiet (by rw [woken_mem hx]; rfl)
  | close =>
    rcases close_calls hx with rfl | rfl | rfl
    · exact hquiet rfl
    · exact ⟨fun _ => m.close_closed,fun _ => trivial⟩
    · exact hquiet rfl
  | cancel =>
    rcases requestCancel_calls hx with rfl | ⟨rfl,hstopped⟩ | rfl
    · exact hquiet rfl
    · exact ⟨fun _ => trivial,fun _ => hstopped⟩
    · exact hquiet rfl
  | unarm => cases hx
  | rejected hr =>
    rw [mem_singleton.1 hx]
    exact ⟨fun _ => hr,fun _ => List.mem_append_right _ List.mem_cons_self⟩
  | unscheduled =>
    rcases mem_cons.1 hx with rfl | hx
    · exact ⟨.inl,mem_append_left _⟩
    · exact hquiet (by rw [back_mem hx]; rfl)
  | failed | published =>
    rcases mem_cons.1 hx with rfl | hx
    · exact ⟨fun _ => trivial,fun _ => .inr rfl⟩
    · exact hquiet (by rw [mem_singleton.1 hx]; rfl)
  | armed =>
    rw [mem_singleton.1 hx]
    exact ⟨fun _ => trivial,False.elim⟩
  | armCall calls hcalls =>
    refine ⟨fun _ => ?_,False.elim⟩
    rcases hcalls x hx with rfl | rfl <;> trivial
  | armFailed =>
    rw [mem_singleton.1 hx]
    exact ⟨fun _ => .inl rfl,False.elim⟩

structure Controls (m n : MachineInstance V) (k : MachineCall V) : Prop where
  closed : m.closed = true → n.closed = true
  done : m.done = true → n.done = true
  requested : (m.error.isSome = true → m.lifecycle = .terminal) → n.lifecycle.requested →
    m.lifecycle.requested ∨ m.workerPhase = .executing
  terminal : n.lifecycle = .terminal → m.lifecycle = .terminal ∨ n.done = true
  phase : n.workerPhase = .executing → m.workerPhase = .executing
  error : ∀ r, n.error = some r → m.error = some r ∨ k = .fail r
  settles : k.settles = true → n.lifecycle = .terminal ∧ n.done = true ∧ n.workerPhase = .idle
  opened : (m.closed = true → m.lifecycle ≠ .opened) → n.closed = true → n.lifecycle ≠ .opened
  erred : (m.error.isSome = true → m.lifecycle = .terminal) → n.error.isSome = true →
    n.lifecycle = .terminal
  closing : (m.lifecycle.requested → m.closed = true) → n.lifecycle.requested → n.closed = true

theorem Controls.of_control (hk : k.settles = false) (hn : n.control = m.control)
    (hphase : n.workerPhase = .executing → m.workerPhase = .executing) : Controls m n k := by
  simp only [control, Prod.mk.injEq] at hn
  obtain ⟨hclosed,hdone,hlife,herror⟩ := hn
  refine ⟨?_,?_,?_,?_,hphase,?_,?_,?_,?_,?_⟩
  · rw [hclosed]
    exact id
  · rw [hdone]
    exact id
  · rw [hlife]
    exact fun _ => .inl
  · rw [hlife]
    exact .inl
  · rw [herror]
    exact fun r hr => .inl hr
  · rw [hk]
    rintro ⟨⟩
  · rw [hclosed, hlife]
    exact id
  · rw [herror, hlife]
    exact id
  · rw [hclosed, hlife]
    exact id

theorem close_controls (m : MachineInstance V) : Controls m m.close.1 .close := by
  unfold close
  split
  · refine ⟨fun _ => rfl,fun _ => rfl,?_,fun _ => .inr rfl,id,fun r hr => .inl hr,?_,?_,
      fun _ _ => rfl,fun _ _ => rfl⟩
    · rintro - (hl | hl) <;> cases hl
    · rintro ⟨⟩
    · rintro - - ⟨⟩
  · rename_i e herror
    refine ⟨fun _ => rfl,id,?_,fun hl => .inl (terminal_of_closing hl),id,
      fun r hr => .inl hr,?_,fun _ _ => closing_ne_opened _,
      fun hm hr => terminal_closing (hm hr),fun _ _ => rfl⟩
    · intro hm hl
      have hterminal := terminal_closing (hm (by rw [herror]; rfl))
      rcases hl with hl | hl <;> rw [hterminal] at hl <;> cases hl
    · rintro ⟨⟩
  · rename_i hrest
    simp only [Bool.or_eq_false_iff] at hrest
    have hphase : m.workerPhase = .executing := by simpa [resting] using hrest.2
    refine ⟨fun _ => rfl,id,fun _ _ => .inr hphase,
      fun hl => .inl (terminal_of_closing hl),id,fun r hr => .inl hr,?_,
      fun _ _ => closing_ne_opened _,
      fun hm hr => terminal_closing (hm hr),fun _ _ => rfl⟩
    rintro ⟨⟩

theorem requestCancel_controls (m : MachineInstance V) : Controls m m.requestCancel.1 .cancel := by
  unfold requestCancel
  split_ifs with hdone hrest
  · exact Controls.of_control rfl rfl id
  · refine ⟨fun _ => rfl,fun _ => rfl,?_,fun _ => .inr rfl,id,fun r hr => .inl hr,?_,?_,
      fun _ _ => rfl,fun _ _ => rfl⟩
    · rintro - (hl | hl) <;> cases hl
    · rintro ⟨⟩
    · rintro - - ⟨⟩
  · simp only [Bool.or_eq_true, beq_iff_eq, not_or] at hdone
    have hphase : m.workerPhase = .executing := by simpa [resting] using hrest
    refine ⟨fun _ => rfl,id,fun _ _ => .inr hphase,?_,id,fun r hr => .inl hr,?_,?_,?_,
      fun _ _ => rfl⟩
    · rintro ⟨⟩
    · rintro ⟨⟩
    · rintro - - ⟨⟩
    · intro hm hr
      exact absurd (hm hr) hdone.2

theorem settled_controls (hclosed : n.closed = m.closed)
    (hdone : n.done = true) (hlife : n.lifecycle = .terminal) (hphase : n.workerPhase = .idle)
    (herror : ∀ r, n.error = some r → m.error = some r ∨ k = .fail r) : Controls m n k := by
  have hsettled : ¬ n.lifecycle.requested := by
    rw [hlife]
    rintro (hl | hl) <;> cases hl
  refine ⟨?_,fun _ => hdone,fun _ hl => absurd hl hsettled,fun _ => .inr hdone,?_,herror,
    fun _ => ⟨hlife,hdone,hphase⟩,?_,fun _ _ => hlife,fun _ hl => absurd hl hsettled⟩
  · rw [hclosed]
    exact id
  · rw [hphase]
    rintro ⟨⟩
  · rw [hlife]
    rintro - - ⟨⟩

theorem Calls.controls (hc : Calls m k n calls new) : Controls m n k := by
  cases hc with
  | light hk hn =>
    refine Controls.of_control hk hn.control fun hp => ?_
    rcases hn.phase with hphase | ⟨hphase,-⟩
    · exact hphase.symm.trans hp
    · exact absurd hp hphase
  | close => exact m.close_controls
  | cancel => exact m.requestCancel_controls
  | unscheduled => exact Controls.of_control rfl rfl (fun hp => by cases hp)
  | failed r =>
    refine settled_controls rfl rfl rfl rfl ?_
    intro e he
    simp only [failRuntime] at he
    split_ifs at he
    · exact .inr (by rw [Option.some.inj he])
    · exact .inl he
  | published => exact settled_controls rfl rfl rfl rfl fun r hr => .inl hr
  | _ => exact Controls.of_control rfl rfl id

def Busy (m : MachineInstance V) : Prop :=
  m.workerPhase = .executing ∧ m.lifecycle ≠ .terminal ∧ m.error = none

theorem Calls.busy (hc : Calls m k n calls new) (hb : m.Busy)
    (hdone : m.done = true → m.lifecycle = .terminal) (hk : k.Harmless m h)
    (hrejected : .postRejected ∉ h) : n.Busy := by
  obtain ⟨hphase,hlife,herror⟩ := hb
  have hopen : m.done = false := by
    by_contra hd
    exact hlife (hdone (by simpa using hd))
  cases hc with
  | light _ hn =>
    have hcontrol := hn.control
    simp only [control, Prod.mk.injEq] at hcontrol
    refine ⟨?_,by rw [hcontrol.2.2.1]; exact hlife,hcontrol.2.2.2.trans herror⟩
    rcases hn.phase with hn | ⟨-,hn⟩
    · exact hn.trans hphase
    · exact absurd hphase hn
  | close =>
    have hrest : (m.done || m.error.isSome || m.resting) = false := by
      simp [hopen, herror, resting, hphase]
    simp only [MachineInstance.close, hrest]
    exact ⟨hphase,fun hl => hlife (terminal_of_closing hl),herror⟩
  | cancel =>
    have hrest : m.resting = false := by simp [resting, hphase]
    simp only [requestCancel, hopen, hrest, Bool.false_or, beq_iff_eq, hlife]
    refine ⟨hphase,?_,herror⟩
    rintro ⟨⟩
  | unscheduled | failed => exact absurd hk hrejected
  | published | armed | armCall | armFailed => exact hk.elim
  | _ => exact ⟨hphase,hlife,herror⟩

structure MailboxFacts (c : MachineConfig V) (m : MachineInstance V) : Prop where
  schema : m.mailbox.schema = c.machine.events
  initialized : m.mailboxInitialized = !c.machine.events.isEmpty
  undrained : m.mailbox.terminal ≠ .draining
  emptied : m.mailbox.Emptied

theorem Calls.terminal (hc : Calls m k n calls new) :
    n.mailbox.schema = m.mailbox.schema ∧ n.mailboxInitialized = m.mailboxInitialized ∧
    (n.mailbox.terminal = m.mailbox.terminal ∨
      (∃ b, k = .cancelMailbox b) ∧ n.mailbox.terminal = .cancelled) := by
  cases hc with
  | light _ hn =>
    rw [hn.mailbox]
    exact ⟨rfl,hn.initialized,.inl rfl⟩
  | @sent e _ _ hsend =>
    have hterminal := terminal_trySend (m := m.mailbox) (e := e)
    have hschema := schema_trySend (m := m.mailbox) (e := e)
    rw [hsend] at hterminal hschema
    exact ⟨hschema,rfl,.inl hterminal⟩
  | close =>
    unfold MachineInstance.close
    split <;> exact ⟨rfl,rfl,.inl rfl⟩
  | cancel =>
    unfold requestCancel
    split_ifs <;> exact ⟨rfl,rfl,.inl rfl⟩
  | cancelMailbox b =>
    exact ⟨schema_cancel,rfl,.inr ⟨⟨b,rfl⟩,terminal_cancel⟩⟩
  | armCall => exact ⟨schema_waitArm,rfl,.inl terminal_waitArm⟩
  | _ => exact ⟨rfl,rfl,.inl rfl⟩

theorem Calls.emptied (hc : Calls m k n calls new) (hm : m.mailbox.Emptied) :
    n.mailbox.Emptied := by
  cases hc with
  | light _ hn =>
    rw [hn.mailbox]
    exact hm
  | @sent e _ _ hsend =>
    have hsent := hm.trySend e
    rw [hsend] at hsent
    exact hsent
  | close =>
    rw [close_mailbox]
    exact hm
  | cancel =>
    rw [requestCancel_mailbox]
    exact hm
  | cancelMailbox b => exact hm.cancel
  | armCall => exact hm.waitArm
  | _ => exact hm

theorem MailboxFacts.call {c : MachineConfig V} (hm : MailboxFacts c m)
    (hc : Calls m k n calls new) : MailboxFacts c n := by
  obtain ⟨hschema,hinit,hterminal⟩ := hc.terminal
  refine ⟨hschema.trans hm.schema,hinit.trans hm.initialized,?_,hc.emptied hm.emptied⟩
  rcases hterminal with hterminal | ⟨-,hterminal⟩
  · rw [hterminal]
    exact hm.undrained
  · rw [hterminal]
    decide

end Calls

end MachineInstance

namespace TaskPoint

variable {V : Type}

structure Facts (c : MachineConfig V) (m : MachineInstance V) (h : List (MachineEntry V))
    (p : TaskPoint V) : Prop where
  busy : p.executing = true → .postRejected ∉ h → m.Busy
  emit : ∀ i e r, p = .emit i e r → m.mailbox.terminal = .cancelled → m.lifecycle.stopped
  staged : ∀ st, p.staged = some st → st.Wellformed c
  emits : ∀ r, p.emits = some r → r.observation = some .event
  reason : ∀ r, p.reason = some r → r.own = true ∨ .postRejected ∈ h ∨ m.lifecycle.stopped

theorem event_of_not_executing {p : TaskPoint V} (hp : p.executing = false) : p.event = none := by
  cases p <;> first | rfl | cases hp

theorem Facts.outside {c : MachineConfig V} {m : MachineInstance V} {h : List (MachineEntry V)}
    {p : TaskPoint V} (hp : p.executing = false) : Facts c m h p := by
  refine ⟨?_,?_,?_,?_,?_⟩
  · rw [hp]
    rintro ⟨⟩
  · rintro i e r rfl
    cases hp
  · cases p <;> first | (cases hp; done) | rintro _ ⟨⟩
  · cases p <;> first | (cases hp; done) | rintro _ ⟨⟩
  · cases p <;> first | (cases hp; done) | rintro _ ⟨⟩

end TaskPoint

namespace MachineSystem

open MachineInstance

variable {V : Type} {c : MachineConfig V} {s t : MachineSystem V} {a : MachineAction V}

def Settling (w : Option (List (MachineCall V) × TaskPoint V)) : Prop :=
  ∃ calls p, w = some (calls, p) ∧ (p.executing = true ∨ ∃ k ∈ calls, k.settles = true)

structure CloseInv (c : MachineConfig V) (s : MachineSystem V) : Prop where
  outside : ∀ th ∈ s.threads, ∀ k ∈ th, k.Pending s.inst s.history ∧ k.Harmless s.inst s.history
  inside : ∀ calls p, s.worker = some (calls, p) → ∀ k ∈ calls,
    k.Pending s.inst s.history ∧ (p.executing = true → k.Harmless s.inst s.history)
  bare : ∀ calls i e r, s.worker = some (calls, .emit i e r) → calls = []
  point : ∀ p, s.point = some p → p.Facts c s.inst s.history
  mailbox : MailboxFacts c s.inst
  ended : s.inst.mailbox.terminal = .cancelled →
    s.inst.lifecycle.stopped ∨ s.inst.closed = true ∨ s.point.bind TaskPoint.event = none
  failures : ∀ e r, .failed e r ∈ s.history → r.own = true ∨ .postRejected ∈ s.history
  error : ∀ r, s.inst.error = some r → r.own = true ∨ .postRejected ∈ s.history
  erred : s.inst.error.isSome = true → s.inst.lifecycle = .terminal
  opened : s.inst.closed = true → s.inst.lifecycle ≠ .opened
  closing : s.inst.lifecycle.requested → s.inst.closed = true
  requested : s.inst.lifecycle.requested ∨ s.inst.workerPhase = .executing → Settling s.worker
  terminal : s.inst.lifecycle = .terminal → s.inst.done = true ∨ Settling s.worker

def closesUnderEmit (s : MachineSystem V) : MachineAction V → Bool
  | .call i _ =>
    match s.threads[i]?, s.point with
    | some (.cancelMailbox .close :: _), some (.emit _ _ _) => true
    | _, _ => false
  | _ => false

theorem closeInv_create (c : MachineConfig V) : CloseInv c (create c) := by
  have hlife : ∀ kind : MachineStateKind, ¬ (if kind = .active then .opened else .terminal :
      ControlLifecycle).requested := by
    intro kind
    cases kind <;> rintro (hl | hl) <;> cases hl
  refine ⟨?_,?_,?_,?_,⟨?_,rfl,?_,?_⟩,fun _ => .inr (.inr rfl),?_,?_,?_,?_,
    fun hl => absurd hl (hlife _),?_,?_⟩
  · rintro th ⟨⟩
  · rintro calls p ⟨⟩
  · rintro calls i e r ⟨⟩
  · rintro p ⟨⟩
  · show (init c).mailbox.schema = _
    unfold init cancel
    dsimp only
    split_ifs <;> rfl
  · show (init c).mailbox.terminal ≠ _
    unfold init cancel
    dsimp only
    split_ifs <;> rintro ⟨⟩
  · show (init c).mailbox.Emptied
    unfold init cancel
    dsimp only
    split_ifs <;> exact fun _ => rfl
  · rintro e r ⟨⟩
  · intro r hr
    left
    simp only [create, init] at hr
    split_ifs at hr
    cases hr
    rfl
  · intro herr
    simp only [create, init] at herr ⊢
    split_ifs at herr with hkind
    · rw [if_neg (by rw [hkind]; decide)]
    · cases herr
  · rintro ⟨⟩
  · rintro (hl | hl)
    · exact absurd hl (hlife _)
    · cases hl
  · intro hl
    left
    simp only [create, init] at hl ⊢
    split_ifs at hl with hkind
    simpa using hkind

/-- A region outside the task, of another thread or called by the task: `w` is the worker
before it, `w'` the worker behind it. -/
theorem CloseInv.call (hs : CloseInv c s) (hkept : Kept c s) {k : MachineCall V} {x : Admission}
    {w : Option (List (MachineCall V) × TaskPoint V)} {ths : List (List (MachineCall V))}
    (hpending : k.Pending s.inst s.history)
    (hharmless : ∀ p, s.point = some p → p.executing = true → k.Harmless s.inst s.history)
    (hemit : ∀ i e r, s.point = some (.emit i e r) → k ≠ .cancelMailbox .close)
    (hw : w = s.worker ∨ ∃ rest p, s.worker = some (k :: rest, p) ∧
      w = some ((s.inst.callStep x k).2.1 ++ rest, p))
    (hths : ∀ th ∈ ths, ∀ j ∈ th, j.Pending (s.inst.callStep x k).1
      (s.history ++ (s.inst.callStep x k).2.2) ∧
        j.Harmless (s.inst.callStep x k).1 (s.history ++ (s.inst.callStep x k).2.2)) :
    CloseInv c
      { inst := (s.inst.callStep x k).1
        worker := w
        threads := ths
        history := s.history ++ (s.inst.callStep x k).2.2 } := by
  have hc := callStep_calls s.inst x k
  have haside := hc.aside
  have hcontrols := hc.controls
  have hpoint : w.map Prod.snd = s.point := by
    rcases hw with rfl | ⟨rest,p,hold,rfl⟩
    · rfl
    · unfold MachineSystem.point
      rw [hold]
      rfl
  -- A worker that settles the instance still does, unless it has just done so.
  have hsettling : Settling s.worker → (s.inst.callStep x k).1.lifecycle = .terminal ∧
      (s.inst.callStep x k).1.done = true ∧ (s.inst.callStep x k).1.workerPhase = .idle ∨
        Settling w := by
    rintro ⟨calls,p,hworker,hcalls⟩
    rcases hw with rfl | ⟨rest,q,hold,rfl⟩
    · exact .inr ⟨calls,p,hworker,hcalls⟩
    rw [hold, Option.some.injEq, Prod.mk.injEq] at hworker
    obtain ⟨rfl,rfl⟩ := hworker
    rcases hcalls with hexec | ⟨j,hj,hsettles⟩
    · exact .inr ⟨_,_,rfl,.inl hexec⟩
    · rcases mem_cons.1 hj with rfl | hj
      · exact .inl (hcontrols.settles hsettles)
      · exact .inr ⟨_,_,rfl,.inr ⟨j,List.mem_append_right _ hj,hsettles⟩⟩
  refine ⟨hths,?_,?_,?_,hs.mailbox.call hc,?_,?_,?_,hcontrols.erred hs.erred,
    hcontrols.opened hs.opened,hcontrols.closing hs.closing,?_,?_⟩
  · rintro calls p hworker j hj
    rcases hw with rfl | ⟨rest,q,hold,rfl⟩
    · obtain ⟨hjp,hjh⟩ := hs.inside calls p hworker j hj
      exact ⟨hjp.mono hcontrols.closed,fun hexec => (hjh hexec).mono haside.stopped⟩
    · obtain ⟨rfl,rfl⟩ := Prod.mk.inj (Option.some.inj hworker)
      rcases mem_append.1 hj with hj | hj
      · refine ⟨(hc.calm hj).1 hpending,fun hexec => (hc.calm hj).2 ?_⟩
        exact hharmless q (by unfold MachineSystem.point; rw [hold]; rfl) hexec
      · obtain ⟨hjp,hjh⟩ := hs.inside _ q hold j (List.mem_cons_of_mem _ hj)
        exact ⟨hjp.mono hcontrols.closed,fun hexec => (hjh hexec).mono haside.stopped⟩
  · intro calls i e r hworker
    rcases hw with rfl | ⟨rest,q,hold,rfl⟩
    · exact hs.bare calls i e r hworker
    · obtain ⟨rfl,rfl⟩ := Prod.mk.inj (Option.some.inj hworker)
      cases hs.bare _ i e r hold
  · intro p hnew
    have hp : s.point = some p := by
      rw [← hpoint]
      exact hnew
    have hfacts := hs.point p hp
    refine ⟨?_,?_,hfacts.staged,hfacts.emits,?_⟩
    · intro hexec hrejected
      have hbefore : .postRejected ∉ s.history := fun hmem =>
        hrejected (mem_append_left _ hmem)
      exact hc.busy (hfacts.busy hexec hbefore) hkept.done (hharmless p hp hexec) hbefore
    · intro i e r hpe hcancelled
      subst hpe
      obtain ⟨-,-,hterminal⟩ := hc.terminal
      rcases hterminal with hterminal | ⟨⟨b,rfl⟩,-⟩
      · exact haside.stopped (hfacts.emit i e r rfl (hterminal ▸ hcancelled))
      · cases b with
        | close => exact absurd rfl (hemit i e r hp)
        | terminal => exact haside.stopped (hharmless _ hp rfl)
    · intro r hr
      rcases hfacts.reason r hr with hown | hrej | hstop
      · exact .inl hown
      · exact .inr (.inl (mem_append_left _ hrej))
      · exact .inr (.inr (haside.stopped hstop))
  · intro hcancelled
    have hbefore : s.inst.lifecycle.stopped ∨ s.inst.closed = true ∨
        s.point.bind TaskPoint.event = none := by
      obtain ⟨-,-,hterminal⟩ := hc.terminal
      rcases hterminal with hterminal | ⟨⟨b,rfl⟩,-⟩
      · exact hs.ended (hterminal ▸ hcancelled)
      cases b with
      | close => exact .inr (.inl hpending)
      | terminal =>
        cases hp : s.point with
        | none => exact .inr (.inr rfl)
        | some p =>
          cases hexec : p.executing with
          | true => exact .inl (hharmless p hp hexec)
          | false => exact .inr (.inr (TaskPoint.event_of_not_executing hexec))
    refine hbefore.imp haside.stopped (Or.imp hcontrols.closed ?_)
    intro hevent
    unfold MachineSystem.point
    rw [hpoint]
    exact hevent
  · intro e r hmem
    rcases mem_append.1 hmem with hmem | hmem
    · exact (hs.failures e r hmem).imp id (mem_append_left _)
    · exact (hc.idle _ hmem).elim
  · intro r hr
    rcases hcontrols.error r hr with hr | rfl
    · exact (hs.error r hr).imp id (mem_append_left _)
    · exact hpending.imp id (mem_append_left _)
  · intro hr
    have hold : Settling s.worker := by
      rcases hr with hr | hr
      · rcases hcontrols.requested hs.erred hr with hr | hr
        · exact hs.requested (.inl hr)
        · exact hs.requested (.inr hr)
      · exact hs.requested (.inr (hcontrols.phase hr))
    rcases hsettling hold with ⟨hterminal,-,hphase⟩ | hnew
    · rcases hr with (hr | hr) | hr
      · rw [hterminal] at hr
        cases hr
      · rw [hterminal] at hr
        cases hr
      · rw [hphase] at hr
        cases hr
    · exact hnew
  · intro hterminal
    rcases hcontrols.terminal hterminal with hterminal | hdone
    · rcases hs.terminal hterminal with hdone | hold
      · exact .inl (hcontrols.done hdone)
      · rcases hsettling hold with ⟨-,hdone,-⟩ | hnew
        · exact .inl hdone
        · exact .inr hnew
    · exact .inl hdone

variable {n : MachineInstance V}

theorem CloseInv.outside_mono (hs : CloseInv c s)
    (hstopped : s.inst.lifecycle.stopped → n.lifecycle.stopped)
    (hclosed : s.inst.closed = true → n.closed = true) (new : List (MachineEntry V)) :
    ∀ th ∈ s.threads, ∀ k ∈ th,
      k.Pending n (s.history ++ new) ∧ k.Harmless n (s.history ++ new) := by
  intro th hth k hk
  obtain ⟨hpending,hharmless⟩ := hs.outside th hth k hk
  exact ⟨hpending.mono hclosed,hharmless.mono hstopped⟩

variable {new : List (MachineEntry V)} {calls : List (MachineCall V)}

theorem CloseInv.moves (hs : CloseInv c s) {p q : TaskPoint V} (hw : s.worker = some ([], p))
    (hcontrol : n.control = s.inst.control) (hphase : n.workerPhase = s.inst.workerPhase)
    (hschema : n.mailbox.schema = s.inst.mailbox.schema)
    (hinit : n.mailboxInitialized = s.inst.mailboxInitialized)
    (hterminal : n.mailbox.terminal = s.inst.mailbox.terminal) (hemptied : n.mailbox.Emptied)
    (hevent : q.event = p.event ∨ s.inst.mailbox.terminal ≠ .cancelled)
    (hexec : q.executing = p.executing) (hcalls : ∀ x ∈ calls, x.quiet = true)
    (hnew : ∀ e r, .failed e r ∉ new) (hemit : ∀ i e r, q = .emit i e r →
      calls = [] ∧ (n.mailbox.terminal = .cancelled → n.lifecycle.stopped))
    (hstaged : ∀ st, q.staged = some st → st.Wellformed c)
    (hemits : ∀ r, q.emits = some r → r.observation = some .event)
    (hreason : ∀ r, q.reason = some r →
      r.own = true ∨ .postRejected ∈ s.history ++ new ∨ n.lifecycle.stopped) :
    CloseInv c { s with inst := n, worker := some (calls, q), history := s.history ++ new } := by
  simp only [MachineInstance.control, Prod.mk.injEq] at hcontrol
  obtain ⟨hclosed,hdone,hlife,herror⟩ := hcontrol
  have hsettling : Settling s.worker → Settling (some (calls,q)) := by
    rintro ⟨calls',p',hworker,hcalls'⟩
    rw [hw] at hworker
    obtain ⟨rfl,rfl⟩ := hworker
    rcases hcalls' with hp | ⟨j,hj,-⟩
    · exact ⟨_,_,rfl,.inl (hexec.trans hp)⟩
    · cases hj
  refine ⟨hs.outside_mono (by rw [hlife]; exact id) (by rw [hclosed]; exact id) new,?_,?_,?_,
    ⟨hschema.trans hs.mailbox.schema,hinit.trans hs.mailbox.initialized,?_,hemptied⟩,?_,?_,
    ?_,?_,?_,?_,?_,?_⟩
  · rintro calls' p' hworker j hj
    cases hworker
    exact (quiet_calm (hcalls j hj)).imp_right fun hj _ => hj
  · intro calls' i e r hworker
    cases hworker
    exact (hemit i e r rfl).1
  · intro p' hp'
    cases hp'
    have hfacts := hs.point p (by unfold MachineSystem.point; rw [hw]; rfl)
    refine ⟨?_,fun i e r hq => (hemit i e r hq).2,hstaged,hemits,hreason⟩
    intro hq hrejected
    obtain ⟨h1,h2,h3⟩ := hfacts.busy (hexec.symm.trans hq) fun hmem =>
      hrejected (mem_append_left _ hmem)
    exact ⟨hphase.trans h1,by rw [hlife]; exact h2,herror.trans h3⟩
  · rw [hterminal]
    exact hs.mailbox.undrained
  · rw [hterminal, hlife, hclosed]
    intro hcancelled
    have hold : s.point.bind TaskPoint.event = p.event := by
      unfold MachineSystem.point
      rw [hw]
      rfl
    refine (hs.ended hcancelled).imp id (Or.imp id ?_)
    intro hnone
    rcases hevent with hevent | hopen
    · exact hevent.trans (hold.symm.trans hnone)
    · exact absurd hcancelled hopen
  · intro e r hmem
    rcases mem_append.1 hmem with hmem | hmem
    · exact (hs.failures e r hmem).imp id (mem_append_left _)
    · exact absurd hmem (hnew e r)
  · intro r hr
    exact (hs.error r (herror.symm.trans hr)).imp id (mem_append_left _)
  · rw [herror, hlife]
    exact hs.erred
  · rw [hclosed, hlife]
    exact hs.opened
  · rw [hclosed, hlife]
    exact hs.closing
  · rw [hlife, hphase]
    exact fun hr => hsettling (hs.requested hr)
  · rw [hlife, hdone]
    exact fun hr => (hs.terminal hr).imp id hsettling

theorem CloseInv.leaves (hs : CloseInv c s) {q : TaskPoint V} (hmail : n.mailbox = s.inst.mailbox)
    (hinit : n.mailboxInitialized = s.inst.mailboxInitialized) (hclosed : n.closed = s.inst.closed)
    (hstopped : s.inst.lifecycle.stopped → n.lifecycle.stopped) (hq : q.executing = false)
    (hcalls : ∀ x ∈ calls, x.Pending n (s.history ++ new))
    (hnew : ∀ e r, .failed e r ∈ new → r.own = true ∨ .postRejected ∈ s.history)
    (herror : ∀ r, n.error = some r → r.own = true ∨ .postRejected ∈ s.history)
    (herred : n.error.isSome = true → n.lifecycle = .terminal)
    (hopened : s.inst.closed = true → n.lifecycle ≠ .opened)
    (hclosing : n.lifecycle.requested → s.inst.closed = true)
    (hrequested : n.lifecycle.requested ∨ n.workerPhase = .executing →
      ∃ k ∈ calls, k.settles = true)
    (hterminal : n.lifecycle = .terminal → n.done = true ∨ ∃ k ∈ calls, k.settles = true) :
    CloseInv c { s with inst := n, worker := some (calls, q), history := s.history ++ new } := by
  refine ⟨hs.outside_mono hstopped (by rw [hclosed]; exact id) new,?_,?_,?_,
    ⟨?_,hinit.trans hs.mailbox.initialized,?_,?_⟩,
    fun _ => .inr (.inr (TaskPoint.event_of_not_executing hq)),?_,?_,herred,?_,?_,?_,?_⟩
  · rintro calls' p' hworker j hj
    cases hworker
    refine ⟨hcalls j hj,?_⟩
    rw [hq]
    rintro ⟨⟩
  · intro calls' i e r hworker
    cases hworker
    cases hq
  · intro p' hp'
    cases hp'
    exact TaskPoint.Facts.outside hq
  · rw [hmail]
    exact hs.mailbox.schema
  · rw [hmail]
    exact hs.mailbox.undrained
  · rw [hmail]
    exact hs.mailbox.emptied
  · intro e r hmem
    rcases mem_append.1 hmem with hmem | hmem
    · exact (hs.failures e r hmem).imp id (mem_append_left _)
    · exact (hnew e r hmem).imp id (mem_append_left _)
  · exact fun r hr => (herror r hr).imp id (mem_append_left _)
  · rw [hclosed]
    exact hopened
  · rw [hclosed]
    exact hclosing
  · intro hr
    exact ⟨calls,q,rfl,.inr (hrequested hr)⟩
  · intro hr
    rcases hterminal hr with hdone | hk
    · exact .inl hdone
    · exact .inr ⟨calls,q,rfl,.inr hk⟩

end MachineSystem

end Salts.CFlow
