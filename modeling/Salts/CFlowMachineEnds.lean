import Mathlib.Algebra.BigOperators.Group.List.Basic
import Mathlib.Algebra.GroupWithZero.Nat
import Salts.CFlowMachineClose

/-!
A task of a machine instance ends: whatever the executor answers, the steps of the task alone lead
to its return.
-/

namespace Salts.CFlow

open List (map_cons map_nil sum_cons sum_nil)
open MachineCall

namespace MachineCall

variable {V : Type}

/-- How many regions a call leads to at most, its own included, apart from those behind the
waiter of a mailbox that is cancelled for the first time. -/
def cost : MachineCall V → Nat
  | .answer _ => 1
  | .unarm => 1
  | .waitCancel => 1
  | .invoke _ _ => 1
  | .cancelMailbox _ => 1
  | .waitArm => 2
  | .bindTerminal => 2
  | .fail _ => 3
  | .publishDone => 3
  | .close => 4
  | .cancel => 4
  | .armFailed => 4
  | .unschedule _ _ => 5
  | .post _ => 6
  | .schedule _ => 7
  | .wake => 8
  | .resume => 8
  | .send _ => 9
  | .armCall => 9
  | .arm => 10

end MachineCall

namespace MachineInstance

variable {V : Type}

/-- The regions behind the waiter of a mailbox, which is woken once more at most when the mailbox
is cancelled. -/
def waiterWork (m : Mailbox V) : Nat := if m.terminal = .cancelled then 0 else 8

theorem waiterWork_congr {m n : Mailbox V} (h : n.terminal = m.terminal) :
    waiterWork n = waiterWork m := by
  unfold waiterWork
  rw [h]

def work (m : MachineInstance V) (calls : List (MachineCall V)) : Nat :=
  (calls.map cost).sum + waiterWork m.mailbox

theorem cost_woken (taken : Bool) : ((woken taken : List (MachineCall V)).map cost).sum ≤ 8 := by
  cases taken <;> simp [woken, cost]

theorem cost_back (caller : ScheduleCaller) (ok : Bool) :
    ((back caller ok : List (MachineCall V)).map cost).sum ≤ 1 := by
  cases caller <;> simp [back, cost]

section

variable (m : MachineInstance V)

theorem cost_unarms : (m.unarms.map cost).sum ≤ 1 := by
  unfold unarms
  split_ifs <;> simp [cost]

theorem close_cost : (m.close.2.map cost).sum ≤ 3 := by
  have hunarms := m.cost_unarms
  unfold close
  split <;> simp [cost, wakers] <;> omega

theorem requestCancel_cost : (m.requestCancel.2.map cost).sum ≤ 3 := by
  have hunarms := m.cost_unarms
  unfold requestCancel
  split_ifs <;> simp [cost, wakers] <;> omega

theorem callStep_cost (a : Admission) (k : MachineCall V) (hk : ∀ b, k ≠ .cancelMailbox b) :
    ((m.callStep a k).2.1.map cost).sum < k.cost := by
  cases k with
  | send e =>
    simp only [callStep]
    split_ifs
    · split
      · rename_i mailbox taken heq
        have hwoken := cost_woken (V := V) taken
        simp only [cost]
        omega
      · simp [cost]
    · simp [cost]
  | resume =>
    simp only [callStep]
    split <;> simp [cost]
  | waitArm =>
    simp only [callStep, waitArm]
    split_ifs <;> simp [cost]
  | bindTerminal =>
    simp only [callStep, bindTerminal]
    split_ifs <;> simp [cost]
  | close =>
    have hclose := m.close_cost
    simp only [callStep, cost] at hclose ⊢
    omega
  | cancel =>
    have hcancel := m.requestCancel_cost
    simp only [callStep, cost] at hcancel ⊢
    omega
  | cancelMailbox b => exact absurd rfl (hk b)
  | schedule caller =>
    have hback := cost_back (V := V) caller true
    simp only [callStep]
    split
    · simp [cost]
    · simp only [cost] at hback ⊢
      omega
  | post caller =>
    have hback := cost_back (V := V) caller true
    simp only [callStep]
    split
    · simp only [cost] at hback ⊢
      omega
    · simp [cost]
    · simp [cost]
  | unschedule caller r =>
    have hback := cost_back (V := V) caller false
    simp only [callStep, map_cons, sum_cons, cost] at hback ⊢
    omega
  | arm =>
    simp only [callStep]
    split_ifs <;> simp [cost]
  | armCall =>
    simp only [callStep]
    split <;> simp [cost]
  | _ => simp [callStep, cost, wakers]

theorem callStep_work (a : Admission) (k : MachineCall V) (rest : List (MachineCall V)) :
    (m.callStep a k).1.work ((m.callStep a k).2.1 ++ rest) < m.work (k :: rest) := by
  suffices h : ((m.callStep a k).2.1.map cost).sum +
      waiterWork (m.callStep a k).1.mailbox < k.cost+waiterWork m.mailbox by
    simp only [work, List.map_append, List.sum_append, map_cons, sum_cons]
    omega
  by_cases hk : ∃ b, k = .cancelMailbox b
  · obtain ⟨b,rfl⟩ := hk
    have hwoken := cost_woken (V := V) m.mailbox.cancel.2
    simp only [callStep]
    split_ifs
    · have hafter : waiterWork m.mailbox.cancel.1 = 0 := if_pos Mailbox.terminal_cancel
      have hbefore : waiterWork m.mailbox = 8 ∨ m.mailbox.cancel.2 = false := by
        unfold waiterWork Mailbox.cancel
        split_ifs
        · exact .inr rfl
        · exact .inl rfl
      rcases hbefore with hbefore | hbefore
      · simp only [cost]
        omega
      · simp only [hbefore, woken, cost, Bool.false_eq_true, if_false, map_nil, sum_nil]
        omega
    · simp [cost]
  · have hcost := m.callStep_cost a k (fun b hb => hk ⟨b,hb⟩)
    obtain ⟨-,-,hterminal⟩ := (callStep_calls m a k).terminal
    have hsame := waiterWork_congr (hterminal.resolve_right fun h => hk h.1)
    omega

end

def pointWork (c : MachineConfig V) : TaskPoint V → Nat
  | .start => (c.quantum + 2) * 400
  | .head i => (c.quantum - i) * 400 + if i < c.quantum then 390 else 60
  | .receive i => (c.quantum - i) * 400 + 360
  | .empty i => (c.quantum - i) * 400 + 330
  | .count i _ => (c.quantum - i) * 400 + 330
  | .settle i _ .select => (c.quantum - i) * 400 + 300
  | .select i _ => (c.quantum - i) * 400 + 270
  | .settle i _ (.act _ _) => (c.quantum - i) * 400 + 240
  | .act i _ _ _ => (c.quantum - i) * 400 + 210
  | .settle i _ (.staged _ _) => (c.quantum - i) * 400 + 180
  | .readClosed i _ _ => (c.quantum - i) * 400 + 160
  | .emit i _ _ => (c.quantum - i) * 400 + 145
  | .commit i _ _ => (c.quantum - i) * 400 + 120
  | .settle i _ (.failing _) => (c.quantum - i) * 400 + 100
  | .failing i _ _ => (c.quantum - i) * 400 + 80
  | .exit _ => 40
  | .returned => 1

section

variable (c : MachineConfig V) (i : Nat) (e : Event V) (next : EventStage V)

theorem goOn_work : pointWork c (goOn c i e next) + 20 ≤ pointWork c (.settle i e next) := by
  cases next with
  | select => simp only [goOn, pointWork]; omega
  | act t error => simp only [goOn, pointWork]; omega
  | failing r => simp only [goOn, pointWork]; omega
  | staged t st =>
    simp only [goOn]
    split
    · simp only [pointWork]; omega
    · split_ifs <;> simp only [pointWork] <;> omega

theorem settle_work : 100 ≤ pointWork c (.settle i e next) := by
  cases next <;> simp only [pointWork] <;> omega

end

theorem taskStep_cost (c : MachineConfig V) (m : MachineInstance V) {p : TaskPoint V}
    (hp : p ≠ .returned) :
    pointWork c (m.taskStep c p).2.2.2 + ((m.taskStep c p).2.1.map cost).sum < pointWork c p := by
  cases p with
  | start =>
    simp only [taskStep, pointWork, map_nil, sum_nil]
    split_ifs <;> omega
  | head i =>
    simp only [taskStep]
    split_ifs with hi hready
    · simp only [pointWork, map_nil, sum_nil]; omega
    · simp only [pointWork, map_nil, sum_nil, if_pos hi]; omega
    · simp only [pointWork, map_nil, sum_nil, if_neg hi]; omega
  | receive i =>
    simp only [taskStep]
    split_ifs
    · split <;> simp only [pointWork, cost, map_cons, map_nil, sum_cons, sum_nil] <;> omega
    · simp only [pointWork, cost, map_cons, map_nil, sum_cons, sum_nil]
      omega
  | empty i =>
    simp only [taskStep]
    split_ifs <;> simp [pointWork, cost]
  | count i e => simp [taskStep, pointWork]
  | settle i e next =>
    have hgo := goOn_work c i e next
    have hsettle := settle_work c i e next
    simp only [taskStep]
    split_ifs
    · have hexit : pointWork c (.exit i) = 40 := rfl
      simp only [map_cons, map_nil, sum_cons, sum_nil, wakers, cost]
      omega
    · simp only [map_nil, sum_nil]
      omega
  | select i e =>
    simp only [taskStep]
    split <;> simp [pointWork]
  | act i e t error =>
    simp only [taskStep]
    split <;> simp [pointWork]
  | readClosed i e r =>
    simp only [taskStep]
    split_ifs <;> simp [pointWork]
  | emit i e r =>
    simp only [taskStep]
    split
    · rename_i taken sent heq
      have hwoken := cost_woken (V := V) taken
      simp only [pointWork]
      omega
    · simp [pointWork]
    · simp [pointWork]
  | commit i e r =>
    simp only [taskStep, commit]
    by_cases hcancel : m.lifecycle = .cancelRequested
    · simp only [hcancel, if_true, pointWork, cost, wakers, map_cons, map_nil, sum_cons, sum_nil]
      omega
    rw [if_neg hcancel]
    by_cases hinvalid : m.workerPhase ≠ .executing ∨ m.lifecycle = .terminal
    · rw [if_pos hinvalid]
      simp [pointWork]
    rw [if_neg hinvalid]
    obtain ⟨d,t,hwakers⟩ := m.commitAllowed_wakers r
    split
    · simp only [pointWork, cost, map_cons, map_nil, sum_cons, sum_nil]
      omega
    · simp only [hwakers, pointWork, cost, map_cons, map_nil, sum_cons, sum_nil]
      omega
    · split_ifs <;> simp only [hwakers, pointWork, cost, List.map_append,
        map_cons, map_nil, List.sum_append, sum_cons, sum_nil] <;>
        (try split_ifs) <;> omega
  | failing i e r =>
    simp only [taskStep, pointWork, cost, wakers, map_cons, map_nil, sum_cons, sum_nil]
    omega
  | exit i =>
    simp only [taskStep]
    split_ifs <;> simp [pointWork, cost]
  | returned => exact absurd rfl hp

theorem commitAllowed_control (m : MachineInstance V) (r : Prepared V) :
    (m.commitAllowed r).1.closed = m.closed ∧ (m.commitAllowed r).1.error = m.error ∧
    (m.commitAllowed r).1.mailboxInitialized = m.mailboxInitialized ∧
    (m.commitAllowed r).1.workerPhase = .scheduled ∧
    (m.commitAllowed r).1.lifecycle =
      if (m.commitAllowed r).1.done || r.target.kind == .error then .terminal else m.lifecycle := by
  have hobservation : ∀ n : MachineInstance V, (n.commitObservation r).1.closed = n.closed ∧
      (n.commitObservation r).1.error = n.error ∧
      (n.commitObservation r).1.mailboxInitialized = n.mailboxInitialized ∧
      (n.commitObservation r).1.lifecycle = n.lifecycle := by
    intro n
    unfold commitObservation
    split_ifs <;> exact ⟨rfl,rfl,rfl,rfl⟩
  have hclosed : ∀ x : MachineInstance V × Bool, (commitClosed x r).1.closed = x.1.closed ∧
      (commitClosed x r).1.error = x.1.error ∧
      (commitClosed x r).1.mailboxInitialized = x.1.mailboxInitialized ∧
      (commitClosed x r).1.lifecycle = x.1.lifecycle := by
    intro x
    unfold commitClosed
    split_ifs <;> exact ⟨rfl,rfl,rfl,rfl⟩
  obtain ⟨h1,h2,h3,h4⟩ := hobservation (m.commitState r)
  obtain ⟨g1,g2,g3,g4⟩ := hclosed ((m.commitState r).commitObservation r)
  obtain ⟨b,hn⟩ := m.commitAllowed_fst r
  rw [hn]
  refine ⟨g1.trans h1,g2.trans h2,g3.trans h3,rfl,?_⟩
  simp only [commitPhase, g4.trans h4]
  rfl

theorem taskStep_keeps (c : MachineConfig V) (m : MachineInstance V) (p : TaskPoint V) :
    (m.taskStep c p).1.closed = m.closed ∧
      (m.taskStep c p).1.mailbox.terminal = m.mailbox.terminal := by
  cases p with
  | head i =>
    simp only [taskStep]
    split_ifs <;> exact ⟨rfl,rfl⟩
  | receive i =>
    have hterminal := Mailbox.terminal_tryReceive (m := m.mailbox)
    simp only [taskStep]
    split_ifs
    · split
      · rename_i mailbox status e heq
        rw [heq] at hterminal
        exact ⟨rfl,hterminal⟩
      · exact ⟨rfl,rfl⟩
      · exact ⟨rfl,rfl⟩
    · exact ⟨rfl,rfl⟩
  | settle i e next =>
    simp only [taskStep]
    split_ifs <;> exact ⟨rfl,rfl⟩
  | select i e =>
    simp only [taskStep]
    split <;> exact ⟨rfl,rfl⟩
  | act i e t error =>
    simp only [taskStep]
    split <;> exact ⟨rfl,rfl⟩
  | emit i e r =>
    simp only [taskStep]
    rcases m.emitActionEvent_cases r with ⟨sent,mailbox,taken,hsend,hemit⟩ |
      ⟨status,taken,sent,hstatus,hemit⟩
    · have hterminal := Mailbox.terminal_trySend (m := m.mailbox) (e := sent)
      rw [hsend] at hterminal
      rw [hemit]
      exact ⟨rfl,hterminal⟩
    · rw [hemit]
      cases status <;> exact ⟨rfl,rfl⟩
  | commit i e r =>
    have hclosed := (m.commitAllowed_control r).1
    have hmail := (m.commitAllowed_commits r).mailbox
    simp only [taskStep, commit]
    by_cases hcancel : m.lifecycle = .cancelRequested
    · rw [if_pos hcancel]
      exact ⟨rfl,rfl⟩
    rw [if_neg hcancel]
    by_cases hinvalid : m.workerPhase ≠ .executing ∨ m.lifecycle = .terminal
    · rw [if_pos hinvalid]
      exact ⟨rfl,rfl⟩
    rw [if_neg hinvalid]
    split <;> exact ⟨hclosed,congrArg Mailbox.terminal hmail⟩
  | _ => exact ⟨rfl,rfl⟩

end MachineInstance

namespace MachineSystem

open MachineInstance

variable {V : Type} {c : MachineConfig V} {s t : MachineSystem V}

def taskWork (c : MachineConfig V) (s : MachineSystem V) : Nat :=
  match s.worker with
  | none => 0
  | some (calls, p) => pointWork c p + s.inst.work calls

theorem work_step (hw : s.worker ≠ none) (a : Admission) :
    ∃ t, step c s (.work a) = some t ∧ taskWork c t < taskWork c s := by
  cases hworker : s.worker with
  | none => exact absurd hworker hw
  | some w =>
    obtain ⟨calls,p⟩ := w
    cases calls with
    | cons k rest =>
      refine ⟨_,by simp only [step, hworker]; rfl,?_⟩
      have hcall := s.inst.callStep_work a k rest
      simp only [taskWork, hworker]
      omega
    | nil =>
      by_cases hp : p = .returned
      · subst hp
        refine ⟨_,by simp only [step, hworker]; rfl,?_⟩
        simp only [taskWork, hworker, pointWork]
        omega
      · have hstep : step c s (.work a) = some { s with
            inst := (s.inst.taskStep c p).1
            worker := some ((s.inst.taskStep c p).2.1,(s.inst.taskStep c p).2.2.2)
            history := s.history ++ (s.inst.taskStep c p).2.2.1 } := by
          cases p <;> first | exact absurd rfl hp | simp [step, hworker]
        refine ⟨_,hstep,?_⟩
        have hcost := taskStep_cost c s.inst hp
        have hterminal := waiterWork_congr (taskStep_keeps c s.inst p).2
        simp only [taskWork, hworker, work]
        omega

theorem work_ends (c : MachineConfig V) (s : MachineSystem V) (answers : List Admission)
    (hlen : taskWork c s ≤ answers.length) :
    ∃ n t, Transition.exec (step c) s ((answers.take n).map .work) = some t ∧ t.worker = none := by
  induction answers generalizing s with
  | nil =>
    refine ⟨0,s,rfl,?_⟩
    by_contra hw
    obtain ⟨t,-,ht⟩ := work_step (c := c) hw .accepted
    simp at hlen
    omega
  | cons a answers ih =>
    by_cases hw : s.worker = none
    · exact ⟨0,s,rfl,hw⟩
    obtain ⟨u,hu,hless⟩ := work_step (c := c) hw a
    rw [List.length_cons] at hlen
    obtain ⟨n,t,ht,hnone⟩ := ih u (by omega)
    refine ⟨n+1,t,?_,hnone⟩
    rw [List.take_succ_cons, map_cons, Transition.exec_cons, hu]
    exact ht

end MachineSystem

end Salts.CFlow
