import Salts.CFlowMachineEnds

/-!
The task of a machine instance against a close, and the runs in which no close cancels the mailbox
under the emission of an event.
-/

namespace Salts.CFlow

open Option (ite_none_right_eq_some some)

namespace MachineInstance

variable {V : Type} {m : MachineInstance V} {r : Prepared V}

theorem commitAllowed_done (hlife : m.lifecycle = .closeRequested) (hclosed : m.closed = true)
    (hkind : r.target.kind ≠ .error) : (m.commitAllowed r).1.done = true := by
  have hstate : (m.commitState r).lifecycle = .closeRequested ∧
      (m.commitState r).closed = true := ⟨hlife,hclosed⟩
  have hdone : (commitClosed ((m.commitState r).commitObservation r) r).1.done = true := by
    cases hk : r.target.kind with
    | error => exact absurd hk hkind
    | active =>
      have hobserved : ((m.commitState r).commitObservation r).1.lifecycle = .closeRequested := by
        unfold commitObservation
        split_ifs <;> exact hlife
      unfold commitClosed
      rw [if_pos ⟨hobserved,hk⟩]
    | done =>
      unfold commitClosed
      unfold commitObservation
      simp only [hstate.2, Bool.true_eq_false, and_false, if_false, hk]
      split_ifs <;> simp
  obtain ⟨b,hn⟩ := m.commitAllowed_fst r
  rw [hn]
  exact hdone

end MachineInstance

namespace MachineSystem

open MachineInstance

variable {V : Type} {c : MachineConfig V} {s t : MachineSystem V} {a : MachineAction V}
  {p : TaskPoint V}

theorem executing_of_settling (hw : s.worker = some ([], p)) (hr : Settling s.worker) :
    p.executing = true := by
  obtain ⟨calls,q,hworker,hcalls⟩ := hr
  rw [hw] at hworker
  obtain ⟨rfl,rfl⟩ := hworker
  rcases hcalls with hp | ⟨j,hj,-⟩
  · exact hp
  · cases hj

theorem CloseInv.rests (hs : CloseInv c s) (hw : s.worker = some ([], p))
    (hp : p.executing = false) : ¬ s.inst.lifecycle.requested ∧ s.inst.workerPhase ≠ .executing ∧
      (s.inst.lifecycle = .terminal → s.inst.done = true) := by
  have hidle : ¬ Settling s.worker := by
    intro hr
    rw [executing_of_settling hw hr] at hp
    cases hp
  exact ⟨fun hr => hidle (hs.requested (.inl hr)),fun hr => hidle (hs.requested (.inr hr)),
    fun hr => (hs.terminal hr).resolve_right hidle⟩

variable {i : Nat} {e : Event V} {q : TaskPoint V} {n : MachineInstance V}
   {calls : List (MachineCall V)}

theorem point_of_worker (hw : s.worker = some (calls, p)) : s.point = some p := by
  unfold MachineSystem.point
  rw [hw]
  rfl

theorem CloseInv.begins (hs : CloseInv c s) (hw : s.worker = some ([], .head i))
    (hopen : s.inst.done = false) (herror : s.inst.error = none) :
    CloseInv c { s with
      inst := { s.inst with workerPhase := .executing }
      worker := some ([], .receive i)
      history := s.history ++ [] } := by
  obtain ⟨hrequested,-,hterminal⟩ := hs.rests hw rfl
  have hlife : s.inst.lifecycle ≠ .terminal := by
    intro hl
    rw [hterminal hl] at hopen
    cases hopen
  rw [List.append_nil]
  refine
    { hs with
      inside := ?_
      bare := by rintro _ _ _ _ ⟨⟩
      point := ?_
      mailbox := { hs.mailbox with }
      ended := fun _ => .inr (.inr rfl)
      requested := fun _ => ⟨_,_,rfl,.inl rfl⟩
      terminal := fun hl => absurd hl hlife }
  · rintro calls q hworker j hj
    cases hworker
    cases hj
  · intro q hq
    cases hq
    exact ⟨fun _ _ => ⟨rfl,hlife,herror⟩,by rintro _ _ _ ⟨⟩,by rintro _ ⟨⟩,by rintro _ ⟨⟩,
      by rintro _ ⟨⟩⟩

theorem forall_mem_pair {α : Type} {P : α → Prop} {x y : α} : (∀ z ∈ [x, y], P z) ↔ P x ∧ P y := by
  simp

theorem no_failure {r : RuntimeError} :
    (.failed e r : MachineEntry V) ∉ ([] : List (MachineEntry V)) := by
  simp

variable {r : Prepared V}

section

variable (hs : CloseInv c s)

include hs

section

variable (hw : s.worker = some ([], p)) (hcontrol : n.control = s.inst.control)
  (hphase : n.workerPhase = s.inst.workerPhase) (hmail : n.mailbox = s.inst.mailbox)
  (hinit : n.mailboxInitialized = s.inst.mailboxInitialized) (hevent : q.event = p.event)
  (hexec : q.executing = p.executing)

include hw hcontrol hphase hmail hinit hevent hexec

theorem CloseInv.goes
    (hemit : ∀ i e r, q = .emit i e r → n.mailbox.terminal = .cancelled → n.lifecycle.stopped)
    (hstaged : ∀ st, q.staged = some st → st.Wellformed c)
    (hemits : ∀ r, q.emits = some r → r.observation = some .event)
    (hreason : ∀ r, q.reason = some r →
      r.own = true ∨ .postRejected ∈ s.history ∨ n.lifecycle.stopped) :
    CloseInv c { s with inst := n, worker := some ([], q), history := s.history ++ [] } := by
  refine hs.moves hw hcontrol hphase (by rw [hmail]) hinit (by rw [hmail]) ?_ (.inl hevent) hexec
    nofun (fun _ _ => no_failure) (fun i e r hq => ⟨rfl,hemit i e r hq⟩) hstaged hemits ?_
  · rw [hmail]
    exact hs.mailbox.emptied
  · rw [List.append_nil]
    exact hreason

theorem CloseInv.goesBare (hstaged : q.staged = none) (hreason : ∀ r, q.reason = some r →
      r.own = true ∨ .postRejected ∈ s.history ∨ n.lifecycle.stopped) :
    CloseInv c { s with inst := n, worker := some ([], q), history := s.history ++ [] } := by
  have hemits : q.emits = none := by
    cases q <;> first | rfl | cases hstaged
  refine hs.goes hw hcontrol hphase hmail hinit hevent hexec ?_ ?_ ?_ hreason
  · rintro i e r rfl
    cases hstaged
  · rw [hstaged]
    rintro st ⟨⟩
  · rw [hemits]
    rintro r ⟨⟩

end

theorem CloseInv.fails {r : RuntimeError} (hw : s.worker = some ([], .failing i e r)) :
    CloseInv c { s with
      inst := s.inst.failRuntime r true
      worker := some ([.cancelMailbox .terminal, s.inst.wakers], .exit i)
      history := s.history ++
        [if s.inst.lifecycle = .cancelRequested then .cancelled e else .failed e r] } := by
  have hfacts := hs.point _ (point_of_worker hw)
  -- Unless cancellation won, the failure is the event's own or the executor's.
  have hreason : s.inst.lifecycle ≠ .cancelRequested →
      r.own = true ∨ .postRejected ∈ s.history := by
    intro hcancel
    by_cases hrejected : .postRejected ∈ s.history
    · exact .inr hrejected
    rcases hfacts.reason r rfl with hown | hrej | hstop | hstop
    · exact .inl hown
    · exact .inr hrej
    · exact absurd hstop hcancel
    · exact absurd hstop (hfacts.busy rfl hrejected).2.1
  refine hs.leaves rfl rfl rfl (fun _ => .inr rfl) rfl (forall_mem_pair.2 ⟨trivial,trivial⟩) ?_ ?_
    (fun _ => rfl) ?_ ?_ ?_ (fun _ => .inl rfl)
  · intro e' r' hmem
    split_ifs at hmem with hcancel
    · simp at hmem
    · simp only [List.mem_singleton, MachineEntry.failed.injEq] at hmem
      rw [hmem.2]
      exact hreason hcancel
  · intro r' hr'
    simp only [failRuntime] at hr'
    split_ifs at hr' with hcond
    · simp only [Bool.and_eq_true, Bool.not_eq_true', beq_eq_false_iff_ne] at hcond
      rw [← some.inj hr']
      exact hreason hcond.1
    · exact hs.error r' hr'
  · rintro - ⟨⟩
  · rintro (hl | hl) <;> cases hl
  · rintro ((hl | hl) | hl) <;> cases hl

theorem CloseInv.cancels
    (hcalls : ∀ x ∈ calls, x.Pending s.inst.settleCancelled (s.history ++ [.cancelled e])) :
    CloseInv c { s with
      inst := s.inst.settleCancelled
      worker := some (calls, .exit i)
      history := s.history ++ [.cancelled e] } := by
  refine hs.leaves rfl rfl rfl (fun _ => .inr rfl) rfl hcalls ?_ hs.error ?_ ?_ ?_ ?_
    (fun _ => .inl rfl)
  · intro e' r' hmem
    simp at hmem
  · intro herr
    exact rfl
  · rintro - ⟨⟩
  · rintro (hl | hl) <;> cases hl
  · rintro ((hl | hl) | hl) <;> cases hl

theorem CloseInv.commits {x : MachineEntry V}
    (hopen : ¬ s.inst.lifecycle.stopped) (hq : q.executing = false)
    (hcalls : ∀ k ∈ calls, k.Pending (s.inst.commitAllowed r).1 (s.history ++ [x]))
    (hx : ∀ e r, x ≠ .failed e r)
    (herror : r.target.kind = .error → ∃ k ∈ calls, k.settles = true) :
    CloseInv c { s with
      inst := (s.inst.commitAllowed r).1
      worker := some (calls, q)
      history := s.history ++ [x] } := by
  obtain ⟨hclosed,herr,hinit,hphase,hlife⟩ := s.inst.commitAllowed_control r
  have hcommits := s.inst.commitAllowed_commits r
  have hterror : s.inst.error = none := by
    by_contra hne
    exact hopen (.inr (hs.erred (Option.isSome_iff_ne_none.2 hne)))
  have hsettled : ¬ (s.inst.commitAllowed r).1.lifecycle.requested := by
    intro hl
    by_cases hend : (s.inst.commitAllowed r).1.done = true ∨ r.target.kind = .error
    · have hterminal : (s.inst.commitAllowed r).1.lifecycle = .terminal := by
        rcases hend with hend | hend
        · exact hcommits.done hend
        · exact hcommits.error hend
      rw [hterminal] at hl
      rcases hl with hl | hl <;> cases hl
    · rw [not_or] at hend
      rw [hlife, if_neg (by simpa using hend)] at hl
      rcases hl with hl | hl
      · exact hend.1 (commitAllowed_done hl (hs.closing (.inl hl)) hend.2)
      · exact hopen (.inl hl)
  refine hs.leaves hcommits.mailbox hinit hclosed (fun hstop => absurd hstop hopen) hq hcalls ?_ ?_
    ?_ ?_ (fun hl => absurd hl hsettled) ?_ ?_
  · intro e' r' hmem
    exact absurd (List.mem_singleton.1 hmem).symm (hx e' r')
  · rw [herr]
    exact hs.error
  · rw [herr, hterror]
    rintro ⟨⟩
  · intro hc
    rw [hlife]
    split_ifs
    · rintro ⟨⟩
    · exact hs.opened hc
  · rintro (hl | hl)
    · exact absurd hl hsettled
    · rw [hphase] at hl
      cases hl
  · intro hl
    rw [hlife] at hl
    split_ifs at hl with hend
    · simp only [Bool.or_eq_true, beq_iff_eq] at hend
      exact hend.imp id herror
    · exact absurd (.inr hl) hopen

end

structure GoesOn (i : Nat) (e : Event V) (next : EventStage V) (q : TaskPoint V) : Prop where
  executing : q.executing = true
  notEmit : ∀ j e' r, q ≠ .emit j e' r
  staged : ∀ st, q.staged = some st → (TaskPoint.settle i e next).staged = some st
  emits : ∀ r, q.emits = some r → r.observation = some .event
  reason : ∀ r, q.reason = some r → (TaskPoint.settle i e next).reason = some r ∨ r = .targetInvalid

theorem goOn_goesOn (i : Nat) (e : Event V) (next : EventStage V) :
    GoesOn i e next (goOn c i e next) := by
  cases next with
  | select => exact ⟨rfl,by simp [goOn],by rintro _ ⟨⟩,by rintro _ ⟨⟩,by rintro _ ⟨⟩⟩
  | act t error => exact ⟨rfl,by simp [goOn],by rintro _ ⟨⟩,by rintro _ ⟨⟩,by rintro _ ⟨⟩⟩
  | failing r => exact ⟨rfl,by simp [goOn],by rintro _ ⟨⟩,by rintro _ ⟨⟩,fun _ hr => .inl hr⟩
  | staged t st =>
    simp only [goOn]
    split
    · exact ⟨rfl,by simp,by rintro _ ⟨⟩,by rintro _ ⟨⟩,fun _ hr => .inr (some.inj hr).symm⟩
    · split_ifs with hobs
      · exact ⟨rfl,by simp,fun _ h => h,fun _ hr => some.inj hr ▸ hobs,by rintro _ ⟨⟩⟩
      · exact ⟨rfl,by simp,fun _ h => h,by rintro _ ⟨⟩,by rintro _ ⟨⟩⟩

theorem emit_refused (hm : MailboxFacts c s.inst) (hstaged : r.staged.Wellformed c)
    (hobs : r.observation = some .event) {status : MailboxStatus} {taken : Bool}
    {sent : Option (Event V)} (hemit : s.inst.emitActionEvent r = (n, status, taken, sent))
    (hok : status ≠ .ok) (hfull : status ≠ .full) : s.inst.mailbox.terminal = .cancelled := by
  obtain ⟨action,haction,hevent⟩ := Option.map_eq_some_iff.1 hobs
  obtain ⟨hmem,hvalue⟩ := hstaged action haction
  obtain ⟨payload,hpayload⟩ := hvalue (by rw [hevent]; decide)
  obtain ⟨row,hrow,htype⟩ := (Option.any_eq_true _ _).1 (c.machine.emitted action hmem hevent)
  have hinit : s.inst.mailboxInitialized = true := by
    rw [hm.initialized]
    cases hevents : c.machine.events with
    | nil =>
      rw [hevents] at hrow
      simp [Mailbox.eventType, findRow] at hrow
    | cons head rest => rfl
  by_contra hterminal
  have hterminal' : s.inst.mailbox.terminal ≠ .draining := hm.undrained
  unfold emitActionEvent at hemit
  simp only [haction, hpayload, Mailbox.trySend, hm.schema, hrow] at hemit
  have htype' : row.payloadType = action.outputType := by simpa using htype
  simp only [ne_eq] at hemit
  split_ifs at hemit
  · exact hfull (congrArg (fun x => x.2.1) hemit).symm
  · exact hok (congrArg (fun x => x.2.1) hemit).symm

theorem CloseInv.commitStep (hs : CloseInv c s) (hw : s.worker = some ([], .commit i e r)) :
    CloseInv c { s with
      inst := (s.inst.commit i e r).1
      worker := some ((s.inst.commit i e r).2.1, (s.inst.commit i e r).2.2.2)
      history := s.history ++ (s.inst.commit i e r).2.2.1 } := by
  have hfacts := hs.point _ (point_of_worker hw)
  unfold commit
  by_cases hcancel : s.inst.lifecycle = .cancelRequested
  · rw [if_pos hcancel]
    exact hs.cancels (forall_mem_pair.2 ⟨trivial,trivial⟩)
  rw [if_neg hcancel]
  by_cases hinvalid : s.inst.workerPhase ≠ .executing ∨ s.inst.lifecycle = .terminal
  · rw [if_pos hinvalid]
    refine hs.goesBare hw rfl rfl rfl rfl rfl rfl rfl ?_
    rintro r' ⟨⟩
    by_cases hrejected : .postRejected ∈ s.history
    · exact .inr (.inl hrejected)
    · obtain ⟨hphase,hlife,-⟩ := hfacts.busy rfl hrejected
      exact absurd hinvalid (by simp [hphase, hlife])
  rw [if_neg hinvalid]
  have hopen : ¬ s.inst.lifecycle.stopped := by
    rintro (hl | hl)
    · exact hcancel hl
    · exact hinvalid (.inr hl)
  obtain ⟨d,t,hwakers⟩ := s.inst.commitAllowed_wakers r
  dsimp only
  split <;> rename_i hkind
  · exact hs.commits hopen rfl (List.forall_mem_singleton.2 (.inl rfl)) (by rintro e r ⟨⟩)
      (fun _ => ⟨.fail .enteredError,by simp,rfl⟩)
  · refine hs.commits hopen rfl ?_ (by rintro e r ⟨⟩) (fun hk => by rw [hkind] at hk; cases hk)
    rw [hwakers]
    exact forall_mem_pair.2 ⟨trivial,trivial⟩
  · refine hs.commits hopen ?_ ?_ (by rintro e r ⟨⟩) (fun hk => by rw [hkind] at hk; cases hk)
    · split_ifs <;> rfl
    intro x hx
    rw [hwakers] at hx
    rcases List.mem_append.1 hx with hx | hx
    · split_ifs at hx
      · rw [List.mem_singleton.1 hx]
        trivial
      · cases hx
    · rw [List.mem_singleton.1 hx]
      trivial

theorem CloseInv.task (hs : CloseInv c s) (hw : s.worker = some ([], p)) (hp : p ≠ .returned) :
    CloseInv c { s with
      inst := (s.inst.taskStep c p).1
      worker := some ((s.inst.taskStep c p).2.1, (s.inst.taskStep c p).2.2.2)
      history := s.history ++ (s.inst.taskStep c p).2.2.1 } := by
  have hfacts := hs.point p (point_of_worker hw)
  cases p with
  | start => exact hs.goesBare hw rfl rfl rfl rfl rfl rfl rfl (by rintro _ ⟨⟩)
  | head i =>
    simp only [taskStep]
    split_ifs with hquantum hready
    · exact hs.goesBare hw rfl rfl rfl rfl rfl rfl rfl (by rintro _ ⟨⟩)
    · simp only [Bool.or_eq_true, not_or, Bool.not_eq_true, Option.isSome_eq_false_iff,
        Option.isNone_iff_eq_none] at hready
      exact hs.begins hw hready.1.1 hready.1.2
    · exact hs.goesBare hw rfl rfl rfl rfl rfl rfl rfl (by rintro _ ⟨⟩)
  | receive i =>
    have hterminal := Mailbox.terminal_tryReceive (m := s.inst.mailbox)
    have hschema := Mailbox.schema_tryReceive (m := s.inst.mailbox)
    simp only [taskStep]
    split_ifs
    · split
      · rename_i mailbox status e heq
        have hopen := hs.mailbox.emptied.tryReceive (e := e) (by rw [heq])
        rw [heq] at hterminal hschema
        have hemptied : mailbox.Emptied := fun hc => absurd (hterminal.symm.trans hc) hopen
        exact hs.moves hw rfl rfl hschema rfl hterminal hemptied (.inr hopen) rfl (by simp) (by simp)
          (by simp) (by rintro _ ⟨⟩) (by rintro _ ⟨⟩) (by rintro _ ⟨⟩)
      · exact hs.goesBare hw rfl rfl rfl rfl rfl rfl rfl (by rintro _ ⟨⟩)
      · exact hs.leaves rfl rfl rfl id rfl (List.forall_mem_singleton.2 trivial)
          (fun _ _ h => absurd h no_failure) hs.error hs.erred hs.opened hs.closing
          (fun _ => ⟨.publishDone,by simp,rfl⟩) (fun _ => .inr ⟨.publishDone,by simp,rfl⟩)
    · exact hs.leaves rfl rfl rfl id rfl (List.forall_mem_singleton.2 (.inl rfl))
        (fun _ _ h => absurd h no_failure) hs.error hs.erred hs.opened hs.closing
        (fun _ => ⟨.fail .receiveFailed,by simp,rfl⟩)
        (fun _ => .inr ⟨.fail .receiveFailed,by simp,rfl⟩)
  | empty i =>
    simp only [taskStep]
    refine hs.leaves rfl rfl rfl id rfl ?_ (fun _ _ h => absurd h no_failure) hs.error hs.erred
      hs.opened hs.closing ?_ ?_
    · intro x hx
      split_ifs at hx <;> rw [List.mem_singleton.1 hx] <;> trivial
    · rintro (hl | hl)
      · have hne : s.inst.lifecycle ≠ .opened := by
          rcases hl with hl | hl <;> rw [hl] <;> decide
        exact ⟨.publishDone,by simp [hne],rfl⟩
      · cases hl
    · intro hl
      have hne : s.inst.lifecycle ≠ .opened := by
        rw [hl]
        decide
      exact .inr ⟨.publishDone,by simp [hne],rfl⟩
  | count i e => exact hs.goesBare hw rfl rfl rfl rfl rfl rfl rfl (by rintro _ ⟨⟩)
  | settle i e next =>
    simp only [taskStep]
    split_ifs
    · exact hs.cancels (List.forall_mem_singleton.2 trivial)
    · have hgo := goOn_goesOn (c := c) i e next
      refine hs.goes hw rfl rfl rfl rfl (goOn_event i next) hgo.executing
        (fun j e' r hq => absurd hq (hgo.notEmit j e' r))
        (fun st hst => hfacts.staged st (hgo.staged st hst)) hgo.emits ?_
      intro r hr
      rcases hgo.reason r hr with hr | rfl
      · exact hfacts.reason r hr
      · exact .inl rfl
  | select i e =>
    simp only [taskStep]
    split
    · refine hs.goesBare hw rfl rfl rfl rfl rfl rfl rfl ?_
      rintro r ⟨⟩
      exact .inl rfl
    · exact hs.goesBare hw rfl rfl rfl rfl rfl rfl rfl (by rintro _ ⟨⟩)
  | act i e t error =>
    simp only [taskStep]
    split <;> rename_i heq
    · refine hs.goesBare hw rfl rfl rfl rfl rfl rfl rfl ?_
      rintro r ⟨⟩
      exact .inl rfl
    · refine hs.goes hw rfl rfl rfl rfl rfl rfl (by simp) ?_ (by rintro _ ⟨⟩) (by rintro _ ⟨⟩)
      rintro st ⟨⟩
      exact MachineConfig.runAction_wellformed heq
  | readClosed i e r =>
    simp only [taskStep]
    split_ifs with hclosed
    · exact hs.goes hw rfl rfl rfl rfl rfl rfl (by simp) hfacts.staged (by rintro _ ⟨⟩) (by rintro _ ⟨⟩)
    refine hs.goes hw rfl rfl rfl rfl rfl rfl ?_ hfacts.staged hfacts.emits (by rintro _ ⟨⟩)
    intro j e' r' _ hcancelled
    rcases hs.ended hcancelled with hstop | hc | hnone
    · exact hstop
    · exact absurd hc hclosed
    · rw [point_of_worker hw] at hnone
      cases hnone
  | emit i e r =>
    simp only [taskStep]
    rcases s.inst.emitActionEvent_cases r with ⟨sent,mailbox,taken,hsend,hemit⟩ |
      ⟨status,taken,sent,hstatus,hemit⟩
    · have hterminal := Mailbox.terminal_trySend (m := s.inst.mailbox) (e := sent)
      have hschema := Mailbox.schema_trySend (m := s.inst.mailbox) (e := sent)
      have hemptied := hs.mailbox.emptied.trySend sent
      rw [hsend] at hterminal hschema hemptied
      rw [hemit]
      refine hs.moves hw rfl rfl hschema rfl hterminal hemptied (.inl rfl) rfl ?_ (by simp) (by simp)
        hfacts.staged (by rintro _ ⟨⟩) (by rintro _ ⟨⟩)
      intro x hx
      rw [woken_mem hx]
      rfl
    · rw [hemit]
      have hrefused := emit_refused hs.mailbox (hfacts.staged _ rfl) (hfacts.emits _ rfl) hemit
        hstatus
      cases status with
      | ok => exact absurd rfl hstatus
      | full =>
        refine hs.goesBare hw rfl rfl rfl rfl rfl rfl rfl ?_
        rintro r' ⟨⟩
        exact .inl rfl
      | _ =>
        refine hs.goesBare hw rfl rfl rfl rfl rfl rfl rfl ?_
        rintro r' ⟨⟩
        exact .inr (.inr (hfacts.emit i e r rfl (hrefused (by decide))))
  | commit i e r => exact hs.commitStep hw
  | failing i e r => exact hs.fails hw
  | exit i =>
    obtain ⟨hrequested,hphase,hterminal⟩ := hs.rests hw rfl
    simp only [taskStep]
    refine hs.leaves rfl rfl rfl id rfl ?_ (fun _ _ h => absurd h no_failure) hs.error hs.erred
      hs.opened hs.closing ?_ (fun hl => .inl (hterminal hl))
    · intro x hx
      split_ifs at hx
      · rw [List.mem_singleton.1 hx]
        trivial
      · cases hx
    · rintro (hl | hl)
      · exact absurd hl hrequested
      · split_ifs at hl
        exact absurd hl hphase
  | returned => exact absurd rfl hp

theorem api_harmless {k : MachineCall V} (hk : k.api = true) {m : MachineInstance V}
    {h : List (MachineEntry V)} : k.Pending m h ∧ k.Harmless m h := by
  cases k <;> first | exact ⟨trivial,trivial⟩ | cases hk

theorem closeInv_step (hs : CloseInv c s) (hkept : Kept c s) (hok : ¬ closesUnderEmit s a = true)
    (hstep : step c s a = some t) : CloseInv c t := by
  cases a with
  | enter k =>
    simp only [step, ite_none_right_eq_some, some.injEq] at hstep
    obtain ⟨hk,rfl⟩ := hstep
    refine { hs with outside := fun th hth j hj => ?_ }
    rcases List.mem_append.1 hth with hth | hth
    · exact hs.outside th hth j hj
    · rw [List.mem_singleton.1 hth] at hj
      rw [List.mem_singleton.1 hj]
      exact api_harmless hk
  | call i x =>
    simp only [step] at hstep
    split at hstep
    · rename_i k rest hthread
      obtain rfl := some.inj hstep
      have hmem := List.mem_of_getElem? hthread
      obtain ⟨hpending,hharmless⟩ := hs.outside _ hmem k List.mem_cons_self
      have hc := callStep_calls s.inst x k
      have haside := hc.aside
      have hcontrols := hc.controls
      have hmono := hs.outside_mono haside.stopped hcontrols.closed (s.inst.callStep x k).2.2
      refine hs.call hkept hpending (fun _ _ _ => hharmless) ?_ (.inl rfl) ?_
      · rintro j e r hpoint rfl
        apply hok
        simp [closesUnderEmit, hthread, hpoint]
      · intro th hth j hj
        rcases List.mem_or_eq_of_mem_set hth with hth | rfl
        · exact hmono th hth j hj
        · rcases List.mem_append.1 hj with hj | hj
          · exact (hc.calm hj).imp (· hpending) (· hharmless)
          · exact hmono _ hmem j (List.mem_cons_of_mem _ hj)
    · cases hstep
  | dispatch =>
    simp only [step, ite_none_right_eq_some, some.injEq, Bool.and_eq_true,
      Option.isNone_iff_eq_none] at hstep
    obtain ⟨⟨hidle,-⟩,rfl⟩ := hstep
    have hsettling : ¬ Settling s.worker := by
      rintro ⟨calls,p,hworker,-⟩
      rw [hidle] at hworker
      cases hworker
    refine
      { hs with
        inside := ?_
        bare := by rintro _ _ _ _ ⟨⟩
        point := ?_
        mailbox := { hs.mailbox with }
        ended := fun _ => .inr (.inr rfl)
        requested := fun hr => absurd (hs.requested hr) hsettling
        terminal := fun hr => .inl ((hs.terminal hr).resolve_right hsettling) }
    · rintro calls p hworker j hj
      cases hworker
      cases hj
    · intro p hp
      obtain rfl := some.inj hp
      exact TaskPoint.Facts.outside rfl
  | work x =>
    simp only [step] at hstep
    split at hstep
    · cases hstep
    · rename_i k rest p hworker
      obtain rfl := some.inj hstep
      have hpoint := point_of_worker hworker
      obtain ⟨hpending,hharmless⟩ := hs.inside _ p hworker k List.mem_cons_self
      have hc := callStep_calls s.inst x k
      have haside := hc.aside
      have hcontrols := hc.controls
      refine hs.call hkept hpending ?_ ?_ (.inr ⟨rest,p,hworker,rfl⟩)
        (hs.outside_mono haside.stopped hcontrols.closed _)
      · intro q hq hexec
        rw [hpoint] at hq
        rw [some.inj hq] at hharmless
        exact hharmless hexec
      · -- At an emission the task has no call to run first.
        rintro j e r hemit rfl
        rw [hpoint] at hemit
        rw [some.inj hemit] at hworker
        cases hs.bare _ j e r hworker
    · rename_i hworker
      obtain rfl := some.inj hstep
      obtain ⟨hrequested,hphase,hterminal⟩ := hs.rests hworker rfl
      exact
        { hs with
          inside := by rintro _ _ ⟨⟩
          bare := by rintro _ _ _ _ ⟨⟩
          point := by rintro _ ⟨⟩
          ended := fun _ => .inr (.inr rfl)
          requested := fun hl => (hl.elim hrequested hphase).elim
          terminal := fun hl => .inl (hterminal hl) }
    · rename_i p hp hworker
      obtain rfl := some.inj hstep
      exact hs.task hworker hp

theorem step_closed (hc : s.inst.closed = true) (hstep : step c s a = some t) :
    t.inst.closed = true := by
  cases a with
  | enter k =>
    simp only [step, ite_none_right_eq_some, some.injEq] at hstep
    obtain ⟨-,rfl⟩ := hstep
    exact hc
  | call i x =>
    simp only [step] at hstep
    split at hstep
    · cases hstep
      exact (callStep_calls s.inst x _).controls.closed hc
    · cases hstep
  | dispatch =>
    simp only [step, ite_none_right_eq_some, some.injEq] at hstep
    obtain ⟨-,rfl⟩ := hstep
    exact hc
  | work x =>
    simp only [step] at hstep
    split at hstep
    · cases hstep
    · cases hstep
      exact (callStep_calls s.inst x _).controls.closed hc
    · cases hstep
      exact hc
    · cases hstep
      exact (taskStep_keeps c s.inst _).1.trans hc

def CloseReach (c : MachineConfig V) (s : MachineSystem V) : Prop :=
  Transition.Reach (step c) (· = create c) (fun s a => ¬ closesUnderEmit s a = true) s

theorem closeInv_reach (hs : CloseReach c s) : CloseInv c s ∧ Kept c s := by
  refine Transition.Reach.invariant (I := fun s => CloseInv c s ∧ Kept c s) ?_ ?_ hs
  · rintro s rfl
    exact ⟨closeInv_create c,books_init c⟩
  · rintro s a t ⟨hinv,hkept⟩ hok hstep
    exact ⟨closeInv_step hinv hkept hok hstep,kept_step hkept hstep⟩

/-- A close does no harm: an event fails for a reason of its own, in that no transition fires on it or
the mailbox is full, or because the executor refused a task; the state is what the committed events
make of it; every event is settled when the task has returned; and a closed instance ends done,
whatever the executor answers to the task meanwhile. -/
structure CloseHarmless (c : MachineConfig V) (s : MachineSystem V) : Prop where
  failures : ∀ before after e r, s.history = before ++ .failed e r :: after →
    r.own = true ∧ c.Blames before e ∨ .postRejected ∈ s.history
  error : ∀ r, s.inst.error = some r → r.own = true ∨ .postRejected ∈ s.history
  state : c.run (eventsOf [.completed] s.history ++ eventsOf [.entered] s.history) =
    some (s.inst.state, s.inst.stateValue)
  settled : s.worker = none → eventsOf EntryKind.settled s.history = eventsOf [.received] s.history
  ends : s.inst.closed = true → ∃ n, ∀ answers : List Admission, n ≤ answers.length →
    ∃ k t, Transition.exec (step c) s ((answers.take k).map .work) = some t ∧ t.worker = none ∧
      t.inst.done = true ∧ (t.inst.error = none → t.inst.pollTerminal = .done) ∧
      ∀ r, t.inst.error = some r → r.own = true ∨ .postRejected ∈ t.history

/-- An event is sent, the downstream resumes, and the task makes `n` steps; then the instance is
closed, its mailbox is cancelled, and the task makes four steps more. -/
def closedAfter (n : Nat) : List (MachineAction Nat) :=
  [.enter (.send { id := 1, payloadType := 0, payload := 5 }), .call 0 .accepted,
    .enter .resume, .call 1 .accepted, .call 1 .accepted, .call 1 .accepted, .dispatch] ++
    List.replicate n (.work .accepted) ++
    [.enter .close, .call 2 .accepted, .call 2 .accepted] ++ List.replicate 4 (.work .accepted)

instance (s : MachineSystem V) (a : MachineAction V) :
    Decidable (¬ closesUnderEmit s a = true) :=
  inferInstanceAs (Decidable (¬ _))

end MachineSystem

end Salts.CFlow
