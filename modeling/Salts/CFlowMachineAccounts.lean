import Salts.CFlowMachineBooks

/-!
The books of a machine instance are kept by every step of its task, hence in every run.
-/

namespace Salts.CFlow

open Transition (anyAction exec)
open Mailbox

namespace MachineInstance

open MachineSystem

variable {V : Type} {c : MachineConfig V} {m n : MachineInstance V} {p q : TaskPoint V}
  {h : List (MachineEntry V)} {e : Event V} {x : MachineEntry V}

theorem Books.mail (hb : Books c m (some p) h) {mailbox : Mailbox V}
    (hx : x = .received e ∨ x = .accepted e)
    (hmail : mailbox.Tracks (eventsOf [.accepted] (h ++ [x])) (eventsOf [.received] (h ++ [x])))
    (hcarried : eventsOf [.received] (h ++ [x]) = eventsOf EntryKind.settled h ++ q.event.toList)
    (hcap : mailbox.capacity = m.mailbox.capacity) (hsound : q.Sound c m (h ++ [x])) :
    Books c { m with mailbox := mailbox } (some q) (h ++ [x]) := by
  have hq : ∀ r, some q = some r → r.Sound c { m with mailbox := mailbox } (h ++ [x]) := by
    rintro r hr
    cases hr
    exact hsound.of_state rfl rfl
  rcases hx with rfl | rfl
  all_goals
    refine ⟨hmail,?_,?_,?_,?_,hb.done,?_,hb.silent.append (.inl rfl),?_,?_,?_,?_,hq,
      hcap.trans hb.room,hb.blamed_append (by simp)⟩
    · simpa using hb.completed
    · simpa using hb.failed
    · simpa using hb.cancelled
    · simpa using hcarried
    · intro hmem
      exact hb.stopped (by simpa using hmem)
    · simpa using hb.ordered
    · simpa using hb.last
    · simpa using hb.once
    · simpa using hb.fold

theorem Books.settleEvent (hb : Books c m (some p) h) (lost : Bool) (r : RuntimeError)
    (hfailed : n.failed = if lost then m.failed else counterIncrement m.failed)
    (hcancelled : n.cancelledInFlight =
      if lost then counterIncrement m.cancelledInFlight else m.cancelledInFlight)
    (hblames : lost = false → r.own = true → c.Blames h e)
    (hp : p.event = some e := by rfl) (hstate : n.state = m.state := by rfl)
    (hvalue : n.stateValue = m.stateValue := by rfl)
    (hcompleted : n.completed = m.completed := by rfl) (hlife : n.lifecycle = .terminal := by rfl)
    (hmail : n.mailbox = m.mailbox := by rfl) {i : Nat} :
    Books c n (some (.exit i)) (h ++ [if lost then .cancelled e else .failed e r]) := by
  have hcarried := hb.carried
  simp only [Option.bind_some, hp] at hcarried
  refine ⟨?_,?_,?_,?_,?_,fun _ => hlife,fun _ => .inr hlife,hb.silent.append (.inl ?_),?_,
    fun _ => hlife,?_,?_,?_,hmail ▸ hb.room,hb.blamed_append ?_⟩
  · rw [hmail]
    cases lost <;> simpa using hb.tracks
  · cases lost <;> simpa [hcompleted] using hb.completed
  · rw [hfailed, hb.failed, counterIncrement_min]
    cases lost <;> simp [Nat.add_assoc]
  · rw [hcancelled, hb.cancelled, counterIncrement_min]
    cases lost <;> simp
  · cases lost <;> simpa [TaskPoint.event] using hcarried
  · cases lost <;> rfl
  · cases lost <;> simpa using hb.ordered
  · cases lost <;> simpa using hb.once
  · rw [hstate, hvalue]
    cases lost <;> simpa using hb.fold
  · rintro q hq
    cases hq
    trivial
  · intro e' r' hmem hown
    cases lost with
    | true => simp at hmem
    | false =>
      obtain ⟨rfl,rfl⟩ : e' = e ∧ r' = r := by simpa using hmem
      exact ⟨rfl,hblames rfl hown⟩

structure Commits (m n : MachineInstance V) (r : Prepared V) : Prop where
  state : n.state = r.target
  stateValue : n.stateValue = r.staged.value
  completed : n.completed =
    if r.target.kind = .error then m.completed else counterIncrement m.completed
  failed : n.failed = if r.target.kind = .error then counterIncrement m.failed else m.failed
  cancelledInFlight : n.cancelledInFlight = m.cancelledInFlight
  mailbox : n.mailbox = m.mailbox
  done : n.done = true → n.lifecycle = .terminal
  error : r.target.kind = .error → n.lifecycle = .terminal

def committedCore (m : MachineInstance V) : (MachineState × V) × (Nat × Nat × Nat) × Mailbox V :=
  ((m.state, m.stateValue), (m.completed, m.failed, m.cancelledInFlight), m.mailbox)

theorem commitObservation_core (m : MachineInstance V) (r : Prepared V) :
    (m.commitObservation r).1.committedCore = m.committedCore := by
  unfold commitObservation
  split_ifs <;> rfl

theorem commitClosed_core (x : MachineInstance V × Bool) (r : Prepared V) :
    (commitClosed x r).1.committedCore = x.1.committedCore := by
  unfold commitClosed
  split_ifs <;> rfl

theorem commitPhase_terminal (m : MachineInstance V) (r : Prepared V)
    (hm : m.done = true ∨ r.target.kind = .error) : (m.commitPhase r).lifecycle = .terminal := by
  unfold commitPhase
  rcases hm with hm | hm <;> simp [hm]

theorem commitAllowed_fst (m : MachineInstance V) (r : Prepared V) :
    ∃ b, (m.commitAllowed r).1 =
      { (commitClosed ((m.commitState r).commitObservation r) r).1.commitPhase r with
        terminalWaiter := b } := by
  unfold commitAllowed
  dsimp only
  split
  · exact ⟨false,rfl⟩
  · exact ⟨_,rfl⟩

theorem commitAllowed_wakers (m : MachineInstance V) (r : Prepared V) :
    ∃ d t, (m.commitAllowed r).2 = .invoke d t := by
  unfold commitAllowed
  dsimp only
  split <;> exact ⟨_,_,rfl⟩

theorem commitAllowed_commits (m : MachineInstance V) (r : Prepared V) :
    Commits m (m.commitAllowed r).1 r := by
  obtain ⟨b,hn⟩ := m.commitAllowed_fst r
  have hcore : (commitClosed ((m.commitState r).commitObservation r) r).1.committedCore =
      (m.commitState r).committedCore := by
    rw [commitClosed_core, commitObservation_core]
  rw [hn]
  generalize (commitClosed ((m.commitState r).commitObservation r) r).1 = n at hcore
  simp only [committedCore, Prod.mk.injEq] at hcore
  obtain ⟨⟨hstate,hvalue⟩,⟨hcompleted,hfailed,hcancelled⟩,hmail⟩ := hcore
  refine ⟨hstate,hvalue,hcompleted,hfailed,hcancelled,hmail,?_,?_⟩
  · intro hd
    exact commitPhase_terminal n r (.inl hd)
  · intro hkind
    exact commitPhase_terminal n r (.inr hkind)

variable {i : Nat} {r : Prepared V}

theorem Books.commitEvent (hb : Books c m (some (.commit i e r)) h) (hopen : ¬ m.lifecycle.stopped)
    (hn : Commits m n r) (hx : x = if r.target.kind = .error then .entered e else .completed e)
    (hq : q.event = none) (hsound : q.Sound c n (h ++ [x])) : Books c n (some q) (h ++ [x]) := by
  have hcarried := hb.carried
  simp only [Option.bind_some, TaskPoint.event] at hcarried
  have hrequested : .cancelRequested ∉ h := fun hmem => hopen (hb.stopped hmem)
  have hnone : eventsOf [.entered] h = [] := by
    by_contra hne
    exact hopen (.inr (hb.last hne))
  have hfire : c.fire (m.state,m.stateValue) e = some (r.target,r.staged.value) := hb.sound _ rfl
  have hfold : c.run (eventsOf EntryKind.committed h ++ [e]) = some (n.state,n.stateValue) := by
    rw [c.run_append_singleton, hb.fold, Option.bind_some, hfire, hn.state, hn.stateValue]
  by_cases hkind : r.target.kind = .error
  · rw [if_pos hkind] at hx
    subst hx
    have hcompleted := hn.completed
    have hfailed := hn.failed
    rw [if_pos hkind] at hcompleted hfailed
    refine ⟨?_,?_,?_,?_,?_,hn.done,fun _ => .inr (hn.error hkind),
      hb.silent.append (.inr ⟨hrequested,by simp⟩),?_,fun _ => hn.error hkind,?_,?_,?_,
      hn.mailbox ▸ hb.room,hb.blamed_append (by simp)⟩
    · rw [hn.mailbox]
      simpa using hb.tracks
    · simpa [hcompleted] using hb.completed
    · rw [hfailed, hb.failed, counterIncrement_min]
      simp [hnone, Nat.add_comm]
    · simpa [hn.cancelledInFlight] using hb.cancelled
    · simpa [hq] using hcarried
    · simpa [hnone] using hb.ordered
    · simp [hnone]
    · simpa using hfold
    · rintro q' hq'
      cases hq'
      exact hsound
  · rw [if_neg hkind] at hx
    subst hx
    have hcompleted := hn.completed
    have hfailed := hn.failed
    rw [if_neg hkind] at hcompleted hfailed
    refine ⟨?_,?_,?_,?_,?_,hn.done,?_,hb.silent.append (.inr ⟨hrequested,by simp⟩),?_,?_,
      ?_,?_,?_,hn.mailbox ▸ hb.room,hb.blamed_append (by simp)⟩
    · rw [hn.mailbox]
      simpa using hb.tracks
    · rw [hcompleted, hb.completed, counterIncrement_min]
      simp
    · simpa [hfailed] using hb.failed
    · simpa [hn.cancelledInFlight] using hb.cancelled
    · simpa [hq] using hcarried
    · intro hmem
      exact absurd hmem (by simp [hrequested])
    · simpa [hnone] using hb.ordered
    · intro hne
      exact absurd (by simpa using hnone) hne
    · simp [hnone]
    · simpa using hfold
    · rintro q' hq'
      cases hq'
      exact hsound

theorem Books.goes (hb : Books c m (some p) h) (hsound : q.Sound c m h := by trivial)
    (hevent : q.event = p.event := by rfl) (hcore : n.committedCore = m.committedCore := by rfl)
    (hlife : n.lifecycle = m.lifecycle := by rfl) (hdone : n.done = m.done := by rfl) :
    Books c n (some q) (h ++ []) := by
  simp only [committedCore, Prod.mk.injEq] at hcore
  obtain ⟨⟨hstate,hvalue⟩,⟨hcompleted,hfailed,hcancelled⟩,hmail⟩ := hcore
  rw [List.append_nil]
  refine hb.move hstate hvalue hcompleted hfailed hcancelled hlife hdone hmail ?_ ?_
  · simpa using hevent
  · rintro q' hq'
    cases hq'
    exact hsound.of_state hstate hvalue

theorem goOn_event (i : Nat) (next : EventStage V) : (goOn c i e next).event = some e := by
  unfold goOn
  split
  · rfl
  · rfl
  · rfl
  · split
    · rfl
    · dsimp only
      split_ifs <;> rfl

theorem goOn_sound {next : EventStage V} (hb : Books c m (some (.settle i e next)) h) :
    (goOn c i e next).Sound c m h := by
  have hs := hb.sound _ rfl
  cases next with
  | select => trivial
  | act t error => exact hs
  | failing r => exact hs
  | staged t staged =>
    obtain ⟨k,error,hselect,haction⟩ := hs
    simp only [goOn]
    split <;> rename_i htarget
    · exact fun _ => .inl ⟨_,hb.fold,by simp [MachineConfig.fire, hselect, haction, htarget]⟩
    rename_i target
    have hfire : c.fire (m.state,m.stateValue) e = some (target,staged.value) := by
      simp [MachineConfig.fire, hselect, haction, htarget]
    split_ifs
    · exact hfire
    · exact hfire

theorem Books.commitStep (hb : Books c m (some (.commit i e r)) h) :
    Books c (m.commit i e r).1 (some (m.commit i e r).2.2.2) (h ++ (m.commit i e r).2.2.1) := by
  unfold commit
  split_ifs with hcancel hinvalid
  · exact hb.settleEvent (n := m.settleCancelled) true .targetInvalid rfl rfl (by simp)
  · exact hb.goes (fun hown => by cases hown)
  have hopen : ¬ m.lifecycle.stopped := by
    rintro (hl | hl)
    · exact hcancel hl
    · exact hinvalid (.inr hl)
  have hcommits := m.commitAllowed_commits r
  dsimp only
  split <;> rename_i hkind
  · exact hb.commitEvent hopen hcommits (by simp [hkind]) rfl trivial
  · exact hb.commitEvent hopen hcommits (by simp [hkind]) rfl trivial
  · refine hb.commitEvent hopen hcommits (by simp [hkind]) ?_ ?_
    · split_ifs <;> rfl
    · split_ifs <;> trivial

theorem emitActionEvent_cases (m : MachineInstance V) (r : Prepared V) :
    (∃ sent mailbox taken, m.mailbox.trySend sent = (mailbox, .ok, taken) ∧
      m.emitActionEvent r = ({ m with mailbox := mailbox }, .ok, taken, some sent)) ∨
    (∃ status taken sent, status ≠ .ok ∧ m.emitActionEvent r = (m, status, taken, sent)) := by
  unfold emitActionEvent
  split
  · rename_i action payload haction hpayload
    dsimp only
    split_ifs
    · generalize hsent : Event.mk action.outputEventId action.outputType payload = sent
      rcases hsend : m.mailbox.trySend sent with ⟨mailbox,status,taken⟩
      by_cases hstatus : status = .ok
      · subst hstatus
        exact .inl ⟨sent,mailbox,taken,hsend,rfl⟩
      · have hsame := trySend_of_ne_ok
          (by rw [hsend]; exact hstatus)
        rw [hsend] at hsame
        obtain rfl : mailbox = m.mailbox := hsame
        exact .inr ⟨status,taken,some sent,hstatus,rfl⟩
    · exact .inr ⟨.invalidArgument,false,none,by decide,rfl⟩
  · exact .inr ⟨.invalidArgument,false,none,by decide,rfl⟩

theorem emit_full {taken : Bool} {sent : Option (Event V)}
    (h : m.emitActionEvent r = (n, .full, taken, sent)) :
    m.mailbox.queue.length = m.mailbox.capacity ∧ m.mailbox.terminal ≠ .cancelled := by
  unfold emitActionEvent at h
  split at h
  · dsimp only at h
    split_ifs at h
    · exact trySend_full (congrArg (fun x => x.2.1) h)
    · cases (Prod.mk.inj h).2
  · cases (Prod.mk.inj h).2

theorem Books.task (hb : Books c m (some p) h) :
    Books c (m.taskStep c p).1 (some (m.taskStep c p).2.2.2) (h ++ (m.taskStep c p).2.2.1) := by
  cases p with
  | start => exact hb.goes
  | head i =>
    simp only [taskStep]
    split_ifs
    · exact hb.goes
    · exact hb.goes
    · exact hb.goes
  | receive i =>
    simp only [taskStep]
    split_ifs
    · split
      · rename_i mailbox status e heq
        have hmail := hb.tracks.tryReceive (by rw [heq])
        rw [heq] at hmail
        refine hb.mail (.inl rfl) (by simpa using hmail)
          (by simpa [TaskPoint.event] using hb.carried) ?_ trivial
        exact (congrArg (fun x => x.1.capacity) heq).symm.trans capacity_tryReceive
      · exact hb.goes
      · exact hb.goes
    · exact hb.goes
  | empty i => exact hb.goes
  | count i e => exact hb.goes
  | settle i e next =>
    simp only [taskStep]
    split_ifs
    · exact hb.settleEvent (n := m.settleCancelled) true .targetInvalid rfl rfl (by simp)
    · exact hb.goes (goOn_sound hb) (goOn_event i next)
  | select i e =>
    simp only [taskStep]
    split <;> rename_i heq
    · exact hb.goes fun _ => .inl ⟨_,hb.fold,by simp [MachineConfig.fire, heq]⟩
    · exact hb.goes ⟨_,heq⟩
  | act i e t error =>
    obtain ⟨k,hselect⟩ := hb.sound _ rfl
    simp only [taskStep]
    split <;> rename_i heq
    · exact hb.goes fun _ => .inl ⟨_,hb.fold,by simp [MachineConfig.fire, hselect, heq]⟩
    · exact hb.goes ⟨k,error,hselect,heq⟩
  | readClosed i e r =>
    have hsound : c.fire (m.state,m.stateValue) e = some (r.target,r.staged.value) := hb.sound _ rfl
    simp only [taskStep]
    split_ifs
    · exact hb.goes hsound
    · exact hb.goes hsound
  | emit i e r =>
    have hsound : c.fire (m.state,m.stateValue) e = some (r.target,r.staged.value) := hb.sound _ rfl
    simp only [taskStep]
    rcases m.emitActionEvent_cases r with ⟨sent,mailbox,taken,hsend,hemit⟩ |
      ⟨status,taken,sent,hstatus,hemit⟩
    · have hmail := hb.tracks.trySend (by rw [hsend])
      have hcap := capacity_trySend (m := m.mailbox) (e := sent)
      rw [hsend] at hmail hcap
      rw [hemit]
      exact hb.mail (.inr rfl) (by simpa using hmail) (by simpa [TaskPoint.event] using hb.carried)
        hcap hsound
    · rw [hemit]
      cases status with
      | ok => exact absurd rfl hstatus
      | full =>
        obtain ⟨hfull,hopen⟩ := emit_full hemit
        exact hb.goes fun _ => .inr (by rw [hb.accepted_length hopen, hfull, hb.room])
      | _ => exact hb.goes (fun hown => by cases hown)
  | commit i e r => exact hb.commitStep
  | failing i e r =>
    have hsettled := hb.settleEvent (n := m.failRuntime r true) (i := i)
      (decide (m.lifecycle = .cancelRequested)) r
    simp only [decide_eq_true_eq] at hsettled
    apply hsettled
    · by_cases hcancel : m.lifecycle = .cancelRequested <;> simp [failRuntime]
    · by_cases hcancel : m.lifecycle = .cancelRequested <;> simp [failRuntime]
    · exact fun _ => hb.sound _ rfl
  | exit i => exact hb.goes
  | returned => exact hb.goes

end MachineInstance

namespace MachineSystem

open MachineInstance

variable {V : Type} {c : MachineConfig V} {s t : MachineSystem V} {a : MachineAction V}

def point (s : MachineSystem V) : Option (TaskPoint V) := s.worker.map Prod.snd

def Kept (c : MachineConfig V) (s : MachineSystem V) : Prop :=
  Books c s.inst s.point s.history

theorem kept_step (hb : Kept c s) (hs : step c s a = some t) : Kept c t := by
  cases a with
  | enter k =>
    simp only [step, Option.ite_none_right_eq_some, Option.some.injEq] at hs
    obtain ⟨-,rfl⟩ := hs
    exact hb
  | call i a =>
    simp only [step] at hs
    split at hs
    · cases hs
      exact Books.call hb a _
    · cases hs
  | dispatch =>
    simp only [step, Option.ite_none_right_eq_some, Option.some.injEq, Bool.and_eq_true,
      Option.isNone_iff_eq_none] at hs
    obtain ⟨⟨hidle,-⟩,rfl⟩ := hs
    have hnone : s.point = none := by
      unfold point
      rw [hidle]
      rfl
    refine Books.move hb rfl rfl rfl rfl rfl rfl rfl rfl ?_ ?_
    · rw [hnone]
      rfl
    · rintro p hp
      cases hp
      trivial
  | work a =>
    simp only [step] at hs
    unfold Kept point at hb
    split at hs
    · cases hs
    · rename_i k rest p hworker
      cases hs
      rw [hworker] at hb
      exact Books.call hb a k
    · rename_i hworker
      cases hs
      rw [hworker] at hb
      refine Books.move hb rfl rfl rfl rfl rfl rfl rfl rfl rfl ?_
      rintro p hp
      cases hp
    · rename_i p hp hworker
      cases hs
      rw [hworker] at hb
      exact Books.task hb

/-- What the books say.  The counters count while they have not stopped at `UINT64_MAX`; a
transition into an error state is committed, and its event counts as failed. -/
structure Accounted (c : MachineConfig V) (s : MachineSystem V) : Prop where
  balance : s.inst.stats.accepted < uint64Max →
    s.inst.stats.accepted = s.inst.stats.completed + s.inst.stats.failed +
      s.inst.stats.cancelledEvents + s.inst.stats.pending + s.inst.stats.inFlight
  completed : s.inst.stats.accepted < uint64Max →
    s.inst.stats.completed = (eventsOf [.completed] s.history).length
  inFlight : s.inst.stats.accepted < uint64Max →
    s.inst.stats.inFlight = (s.point.bind TaskPoint.event).toList.length
  accepted_order : eventsOf [.received] s.history <+: eventsOf [.accepted] s.history
  processed_order : eventsOf EntryKind.settled s.history ++
    (s.point.bind TaskPoint.event).toList = eventsOf [.received] s.history
  state : c.run (eventsOf [.completed] s.history ++ eventsOf [.entered] s.history) =
    some (s.inst.state, s.inst.stateValue)
  entered : (eventsOf [.entered] s.history).length ≤ 1
  silent : Silent s.history

theorem Kept.accounted (hb : Kept c s) : Accounted c s := by
  have hsettled := length_settled s.history
  have hlengths := congrArg List.length hb.carried
  rw [List.length_append, hsettled] at hlengths
  have hcompleted := hb.completed
  have hfailed := hb.failed
  have hcancelled := hb.cancelled
  have hcounts : s.inst.stats.accepted < uint64Max →
      s.inst.mailbox.received = (eventsOf [.received] s.history).length ∧
      s.inst.mailbox.received < uint64Max ∧
      s.inst.mailbox.accepted = s.inst.mailbox.received+s.inst.mailbox.queue.length +
        s.inst.mailbox.cancelled := by
    intro hlt
    obtain ⟨hbalance,hreceived⟩ := hb.tracks.balance hlt
    have haccepted : s.inst.stats.accepted = s.inst.mailbox.accepted := rfl
    omega
  refine ⟨?_,?_,?_,hb.tracks.in_order,hb.carried.symm,hb.ordered ▸ hb.fold,hb.once,hb.silent⟩
  · intro hlt
    obtain ⟨hreceived,hsmall,hbalance⟩ := hcounts hlt
    simp only [stats, if_neg hsmall.ne]
    omega
  · intro hlt
    simp only [stats]
    omega
  · intro hlt
    obtain ⟨hreceived,hsmall,hbalance⟩ := hcounts hlt
    simp only [stats, if_neg hsmall.ne]
    omega

/-- In every run of a machine instance, whatever is sent, resumed, closed and cancelled meanwhile,
the events are accounted for, processed in the order of their acceptance and folded into the state,
and nothing is committed once cancellation was requested. -/
theorem machine_events_accounted (hs : Transition.Reach (step c) (· = create c) anyAction s) :
    Accounted c s := by
  refine Kept.accounted (Transition.Reach.invariant ?_ ?_ hs)
  · rintro s rfl
    exact books_init c
  · intro s a t hb _ ha
    exact kept_step hb ha

/-- Event 1 adds its payload to the state value, event 2 leads into a state of the given kind. -/
def adding (kind : MachineStateKind) : MachineConfig Nat where
  machine :=
    { states := [{ id := 1, kind := .active }, { id := 2, kind := kind }]
      initial := { id := 1, kind := .active }
      events := [{ id := 1, payloadType := 0 }, { id := 2, payloadType := 0 }]
      actions :=
        [{ id := 1, mayFail := false, observation := .none, outputType := 0, outputEventId := 0 }]
      transitions :=
        [{ source := 1, event := 1, guard := 0, action := 1, target := 1 },
          { source := 1, event := 2, guard := 0, action := 0, target := 2 }]
      emitted := by decide }
  initialState := 7
  guards := []
  actions :=
    [{ id := 1, fn := fun state event => { ok := true, target := state + event, observation := 0 } }]
  mailboxCapacity := 4

def sends (thread id payload : Nat) : List (MachineAction Nat) :=
  [.enter (.send { id := id, payloadType := 0, payload := payload }), .call thread .accepted]

/-- Four events are sent, the downstream resumes, and the task makes `n` steps. -/
def fourEvents (n : Nat) : List (MachineAction Nat) :=
  sends 0 1 5 ++ sends 1 1 6 ++ sends 2 2 0 ++ sends 3 1 9 ++
    [.enter .resume, .call 4 .accepted, .call 4 .accepted, .call 4 .accepted, .dispatch] ++
    List.replicate n (.work .accepted)

theorem fourEvents_accounted : ∃ s,
    exec (step (adding .active)) (create (adding .active)) (fourEvents 42) = some s ∧
    (s.inst.stats.accepted = 4 ∧ s.inst.stats.completed = 3 ∧ s.inst.stats.failed = 1 ∧
      s.inst.stateValue = 18) ∧
    s.inst.stats.accepted = s.inst.stats.completed + s.inst.stats.failed +
      s.inst.stats.cancelledEvents + s.inst.stats.pending + s.inst.stats.inFlight ∧
    Accounted (adding .active) s := by
  refine Transition.exec_shows_and (by decide +kernel) fun s hs hstats => ?_
  have haccounted := machine_events_accounted (.exec (.start rfl) (fun _ _ _ => trivial) hs)
  exact ⟨haccounted.balance (by rw [hstats.1]; decide),haccounted⟩

def echoing : MachineConfig Nat where
  machine :=
    { states := [{ id := 1, kind := .active }]
      initial := { id := 1, kind := .active }
      events := [{ id := 1, payloadType := 0 }]
      actions :=
        [{ id := 1, mayFail := false, observation := .event, outputType := 0, outputEventId := 1 }]
      transitions := [{ source := 1, event := 1, guard := 0, action := 1, target := 1 }]
      emitted := by decide }
  initialState := 0
  guards := []
  actions :=
    [{ id := 1
       fn := fun state event =>
        { ok := true, target := state + event, observation := event } }]
  mailboxCapacity := 4

/-- The task of `echoing` before turn `i`, with `n` events behind it and one in the mailbox. -/
def echoed (i n value : Nat) (observed : Option Nat) (h : List (MachineEntry Nat)) :
    MachineSystem Nat :=
  { inst :=
      { mailbox :=
          { schema := echoing.machine.events
            capacity := 4
            queue := [⟨1, 0, 5⟩]
            accepted := min (n + 1) uint64Max
            received := min n uint64Max }
        mailboxInitialized := true
        state := ⟨1, .active⟩
        stateValue := value
        observationValue := observed
        completed := min n uint64Max
        emittedEvents := min n uint64Max
        workerPhase := .scheduled }
    worker := some ([], .head i)
    threads := [[], []]
    history := h }

section Echo

variable {i : Nat} (n value : Nat) (observed : Option Nat) (h : List (MachineEntry Nat))

-- Rules for the steps of the task at a written-out state: unfolding `step` would also unfold it
-- for the states of the rest of the run, which are not known yet.
theorem work_call (m : MachineInstance Nat) (k : MachineCall Nat) (rest : List (MachineCall Nat))
    (p : TaskPoint Nat) (threads : List (List (MachineCall Nat))) (a : Admission) :
    step echoing ⟨m, some (k :: rest, p), threads, h⟩ (.work a) =
      some ⟨(m.callStep a k).1, some ((m.callStep a k).2.1 ++ rest, p), threads,
        h ++ (m.callStep a k).2.2⟩ := rfl

theorem work_task (m : MachineInstance Nat) (p : TaskPoint Nat) (hp : p ≠ .returned)
    (threads : List (List (MachineCall Nat))) (a : Admission) :
    step echoing ⟨m, some ([], p), threads, h⟩ (.work a) =
      some ⟨(m.taskStep echoing p).1, some ((m.taskStep echoing p).2.1,
        (m.taskStep echoing p).2.2.2), threads, h ++ (m.taskStep echoing p).2.2.1⟩ := by
  cases p <;> first | rfl | exact absurd rfl hp

theorem echoed_turn (hi : i < 64) : ∃ h',
    exec (step echoing) (echoed i n value observed h)
      (List.replicate 12 (.work .accepted)) =
        some (echoed (i + 1) (n + 1) (value + 5) (some 5) h') := by
  have hselect : ∀ v, echoing.selectTransition ⟨1, .active⟩ v 1 5 =
      .ok (0, ⟨1, 1, 0, 1, 1⟩, none) := fun _ => rfl
  have hrun : ∀ v, echoing.runAction ⟨1, 1, 0, 1, 1⟩ v 5 none =
      .ok ⟨v + 5, some ⟨1, false, .event, 0, 1⟩, some 5⟩ := fun _ => rfl
  have hstate : echoing.findState 1 = some ⟨1, .active⟩ := rfl
  have htype : eventType echoing.machine.events 1 = some ⟨1, 0⟩ := rfl
  have hquantum : echoing.quantum = 64 := rfl
  refine ⟨h ++ [.received ⟨1, 0, 5⟩, .accepted ⟨1, 0, 5⟩, .completed ⟨1, 0, 5⟩,
    .woken false false],?_⟩
  simp [List.replicate, work_call, work_task, echoed, taskStep, callStep, hquantum, hi, hselect,
    hrun, hstate, htype, goOn, commit, commitAllowed, commitState, commitObservation, commitClosed,
    commitPhase, emitActionEvent, trySend, tryReceive, woken, Prepared.observation,
    counterIncrement_min]

theorem echoed_again : exec (step echoing) (echoed 64 n value observed h)
    (List.replicate 5 (.work .accepted) ++ [.dispatch, .work .accepted]) =
      some (echoed 0 n value observed h) := by
  have hquantum : echoing.quantum = 64 := rfl
  have hreturned : ∀ m threads h, step echoing ⟨m, some ([], .returned), threads, h⟩
      (.work .accepted) = some ⟨m, none, threads, h⟩ := fun _ _ _ => rfl
  have hdispatch : ∀ m threads h, 0 < m.queued → step echoing ⟨m, none, threads, h⟩ .dispatch =
      some ⟨{ m with queued := m.queued - 1 }, some ([], .start), threads, h⟩ :=
    fun m threads h hq => by simp [step, hq]
  simp [List.replicate, work_call, work_task, hreturned, hdispatch, echoed, taskStep, callStep,
    hquantum, schedule, back]

end Echo

theorem echoed_reached (n : Nat) : ∃ i value observed h, i ≤ 64 ∧
    Transition.Reach (step echoing) (· = create echoing) anyAction
      (echoed i n value observed h) := by
  induction n with
  | zero =>
    have hrun : ∃ h, exec (step echoing) (create echoing)
        (sends 0 1 5 ++ [.enter .resume, .call 1 .accepted, .call 1 .accepted, .call 1 .accepted,
          .call 1 .accepted, .dispatch, .work .accepted]) = some (echoed 0 0 0 none h) := ⟨_,rfl⟩
    obtain ⟨h,he⟩ := hrun
    exact ⟨0,0,none,h,by omega,.exec (.start rfl) (fun _ _ _ => trivial) he⟩
  | succ n ih =>
    obtain ⟨i,value,observed,h,hi,hs⟩ := ih
    rcases hi.lt_or_eq with hi | rfl
    · obtain ⟨h',he⟩ := echoed_turn n value observed h hi
      exact ⟨_,_,_,h',hi,hs.exec (fun _ _ _ => trivial) he⟩
    · obtain ⟨h',he⟩ := echoed_turn n value observed h (i := 0) (by omega)
      have hagain := hs.exec (fun _ _ _ => trivial) (echoed_again n value observed h)
      exact ⟨_,_,_,h',by omega,hagain.exec (fun _ _ _ => trivial) he⟩

/-- The state is not the fold over the completed events alone: an event that leads into an error
state changes the state and counts as failed.  And behind `UINT64_MAX` echoes the counter of accepted
events stands still, with one more event in the mailbox than it counts. -/
theorem error_state_not_folded :
    (∃ s, Transition.Reach (step (adding .error)) (· = create (adding .error))
        anyAction s ∧
      s.inst.stats.failed = 1 ∧
      (adding .error).run (eventsOf [.completed] s.history) ≠
        some (s.inst.state, s.inst.stateValue)) ∧
    ∃ s, Transition.Reach (step echoing) (· = create echoing) anyAction s ∧
      s.inst.stats.accepted ≠ s.inst.stats.completed + s.inst.stats.failed +
        s.inst.stats.cancelledEvents + s.inst.stats.pending + s.inst.stats.inFlight := by
  constructor
  · exact Transition.exec_shows _ _ (fourEvents 35) (by decide +kernel) fun s hs =>
      .exec (.start rfl) (fun _ _ _ => trivial) hs
  · obtain ⟨i,value,observed,h,-,hs⟩ := echoed_reached uint64Max
    refine ⟨_,hs,?_⟩
    simp [stats, echoed]

end MachineSystem

end Salts.CFlow
