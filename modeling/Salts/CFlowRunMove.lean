import Salts.CFlowRunPump

/-!
Everything a thread of a subscription can do in one move.  Invariants are proved by cases on
`RunMove` and never unfold `RunImpl.move`.
-/

namespace Salts.CFlow

open RunImpl
open RunPoint

variable {δ α ε : Type}

def UnitResult.plane : UnitResult δ α → δ
  | .done d _ => d
  | .value d _ => d
  | .wait d => d
  | .fail d _ _ => d

def Plane.Works (P : Plane δ α ε) (d d' : δ) : Prop :=
  d' = d ∨ d' = P.popFrame d ∨ (P.poll d = .done ∧ d' = P.markSourceDone d) ∨
    d' = (P.flushNode d).plane ∨ ∃ n, d' = (P.resumeTop d n).plane ∨ d' = (P.sourceStep d n).plane

inductive RunMove (P : Plane δ α ε) (r : RunImpl δ α) :
    RunPoint α ε → RunImpl δ α → RunPoint α ε → List (RunPoint α ε) → Prop
  -- callers
  | requestEnds (n : Nat) (status : Status)
      (h : r.freed ≠ 0 ∨ n = 0 ∨ r.closed = true ∨ r.terminated = true) :
      RunMove P r (.request n) r (.finished status) []
  | request (n : Nat) (hc : r.closed = false) (ht : r.terminated = false) :
      RunMove P r (.request n) (r.addDemand n) (.schedule false true .caller) []
  | wakeEnds (hf : r.freed ≠ 0) : RunMove P r .wake r (.finished .ok) []
  | wake : RunMove P r .wake { r with waiting := false } (.schedule true false .ignored) []
  | source (e : ε) : RunMove P r (.source e) { r with plane := P.event r.plane e } .wake []
  | sourceSilent (e : ε) (h : P.poll (P.event r.plane e) = .opened ∨ P.poll r.plane ≠ .opened) :
      RunMove P r (.source e) { r with plane := P.event r.plane e } (.finished .ok) []
  | cancelEnds (k : RunReturn) (hf : r.freed ≠ 0) : RunMove P r (.cancel k) r (.back .ok k) []
  | cancel (k : RunReturn) :
      RunMove P r (.cancel k) { r with cancelRequested := true, waiting := false }
        (.schedule false false k) []
  | claimEnds (hf : r.freed ≠ 0) : RunMove P r .closeClaim r .closeReturned []
  | claim (hf : r.freed = 0) (he : r.externalCloser = false) (hd : r.destroying = false) :
      RunMove P r .closeClaim { r with externalCloser := true } (.closeMark .closer) []
  | markAgain (k : RunReturn) (hc : r.closeRequested = true) :
      RunMove P r (.closeMark k) r (.back .ok k) []
  | mark (k : RunReturn) (hc : r.closeRequested = false) :
      RunMove P r (.closeMark k) { r with closeRequested := true } (.cancel k) []
  | closeWait (hr : r.taskRefs = 0) : RunMove P r .closeWait r .closeDestroy []
  | closeDestroy : RunMove P r .closeDestroy { r with destroying := true } (.destroy true) []
  -- schedule_pump
  | admitPump (failOnRejection published : Bool) (k : RunReturn) (ha : r.admits = true) :
      RunMove P r (.schedule failOnRejection published k) (r.takeTaskRefs failOnRejection)
        (.posting (r.nextTaskGeneration + 1) k) []
  | unposted (failOnRejection published : Bool) (k : RunReturn)
      (ha : r.admits = false ∨ r.exhausted = true) :
      RunMove P r (.schedule failOnRejection published k) (r.joinScheduled failOnRejection)
        (.back (r.unpostedStatus published) k) []
  | post (generation : Nat) (k : RunReturn) :
      RunMove P r (.posting generation k) r (.accepted k) [.task generation]
  | refusePost (generation : Nat) (result : Admission) (k : RunReturn) :
      RunMove P r (.posting generation k) r (.rejected generation result k) []
  | accepted (k : RunReturn) :
      RunMove P r (.accepted k) { r with taskPosting := r.taskPosting - 1 }
        (.releasePosting .ok k) []
  | rejectedFails (generation : Nat) (result : Admission) (k : RunReturn)
      (hf : r.rejectionFails generation = true) :
      RunMove P r (.rejected generation result k) (r.rejectPost generation result)
        (.notifyRejected (schedulerRejectionError result) (schedulerRejectionStatus result) k) []
  | rejected (generation : Nat) (result : Admission) (k : RunReturn)
      (hf : r.rejectionFails generation = false) :
      RunMove P r (.rejected generation result k) (r.rejectPost generation result)
        (.releaseRejected (schedulerRejectionStatus result) k) []
  | notifyRejected (message : String) (status : Status) (k : RunReturn) :
      RunMove P r (.notifyRejected message status k) { r with log := r.log ++ [.error message] }
        (.inRejected status k) []
  | inRejected (status : Status) (k : RunReturn) :
      RunMove P r (.inRejected status k) r (.releaseRejected status k) []
  | closeInRejected (status : Status) (k : RunReturn) :
      RunMove P r (.inRejected status k) r (.closeMark (.inRejected status k)) []
  | releaseRejected (status : Status) (k : RunReturn) (hd : r.releaseTaskRef.2 = false) :
      RunMove P r (.releaseRejected status k) r.releaseTaskRef.1 (.releasePosting status k) []
  | releaseRejectedDestroys (status : Status) (k : RunReturn) (hd : r.releaseTaskRef.2 = true) :
      RunMove P r (.releaseRejected status k) r.releaseTaskRef.1 (.destroy false) []
  | releasePosting (status : Status) (k : RunReturn) (hd : r.releaseTaskRef.2 = false) :
      RunMove P r (.releasePosting status k) r.releaseTaskRef.1 (.back status k) []
  | releasePostingDestroys (status : Status) (k : RunReturn) (hd : r.releaseTaskRef.2 = true) :
      RunMove P r (.releasePosting status k) r.releaseTaskRef.1 (.destroy false) []
  -- pump_task
  | task (generation : Nat) :
      RunMove P r (.task generation) { r.clearScheduledTask with pumpRunning := true } (.head 0) []
  | taskEnded (generation : Nat) (ht : r.terminated = true) :
      RunMove P r (.task generation) r.clearScheduledTask .releaseTask []
  | taskCancelled (generation : Nat) (ht : r.terminated = false) :
      RunMove P r (.task generation) (r.clearScheduledTask.takeCancel P) .releaseTask []
  | headEnds (i : Nat) (he : runQuantum ≤ i ∨ r.loopEnds P = true) :
      RunMove P r (.head i) r .tail []
  | head (i : Nat) (he : r.loopEnds P = false) : RunMove P r (.head i) r (.takeCancel i) []
  | takeEnded (i : Nat) (ht : r.terminated = true) : RunMove P r (.takeCancel i) r .tail []
  | takeCancel (i : Nat) (ht : r.terminated = false) (hq : r.cancelRequested = true) :
      RunMove P r (.takeCancel i) (r.takeCancel P) .tail []
  | takeNothing (i : Nat) (ht : r.terminated = false) :
      RunMove P r (.takeCancel i) r (.processUnit i) []
  | unitLoop (i : Nat) (d : δ) (next : Option Nat) (hu : P.Works r.plane d)
      (hn : next = none → 0 < r.demand ∨ P.poll d = .opened ∨ (P.topFrame d).isSome = true ∨
        P.nodesDone d = false) :
      RunMove P r (.processUnit i) { r with plane := d } (.loop next) []
  | unitValue (i : Nat) (d : δ) (v : α) (hu : P.Works r.plane d) (hd : 0 < r.demand) :
      RunMove P r (.processUnit i) { r with plane := d } (.deliver i v) []
  | unitWait (i : Nat) (d : δ) (hu : P.Works r.plane d) (hd : 0 < r.demand) :
      RunMove P r (.processUnit i) { r with plane := d } (.arm i) []
  | unitFail (i : Nat) (d : δ) (status : Status) (message : String) (next : Option Nat)
      (hu : P.Works r.plane d) (hd : (0 < r.demand ∧ next = none) ∨
        (d = r.plane ∧ ∃ m, P.poll d = .error m ∧ message = m.getD "source terminal error")) :
      RunMove P r (.processUnit i) { r with plane := d } (.fail status message next) []
  | unitFinish (i : Nat) (hs : P.sourceDone r.plane = true) : RunMove P r (.processUnit i) r .finish []
  | deliverUnasked (i : Nat) (v : α) (hd : r.demand = 0) :
      RunMove P r (.deliver i v) r
        (.fail .executionError "runtime produced value without demand" none) []
  | deliver (i : Nat) (v : α) :
      RunMove P r (.deliver i v) { r with demand := r.demand - 1, log := r.log ++ [.value v] }
        (.inValue i) []
  | inValue (i : Nat) : RunMove P r (.inValue i) r (.head (i + 1)) []
  | refuseValue (i : Nat) :
      RunMove P r (.inValue i) r (.fail .executionError "observer rejected value" none) []
  | closeInValue (i : Nat) : RunMove P r (.inValue i) r (.closeMark (.inValue i)) []
  | arm (i : Nat) : RunMove P r (.arm i) { r with waiting := true } (.arming i) []
  | arming (i : Nat) : RunMove P r (.arming i) r (.head (i + 1)) []
  | armFails (i : Nat) :
      RunMove P r (.arming i) { r with waiting := false }
        (.fail .executionError "waitable arm failed" none) []
  | failEnded (status : Status) (message : String) (next : Option Nat) (ht : r.terminated = true) :
      RunMove P r (.fail status message next) r (.loop next) []
  | fail (status : Status) (message : String) (next : Option Nat) (ht : r.terminated = false) :
      RunMove P r (.fail status message next) (r.failStatus status message)
        (.notifyError message next) []
  | notifyError (message : String) (next : Option Nat) :
      RunMove P r (.notifyError message next) { r with log := r.log ++ [.error message] }
        (.inError next) []
  | inError (next : Option Nat) : RunMove P r (.inError next) r (.loop next) []
  | closeInError (next : Option Nat) :
      RunMove P r (.inError next) r (.closeMark (.inError next)) []
  | finishEnded (ht : r.terminated = true) : RunMove P r .finish r .tail []
  | finish (ht : r.terminated = false) :
      RunMove P r .finish { r with terminated := true } .notifyDone []
  | notifyDone : RunMove P r .notifyDone { r with log := r.log ++ [.done] } .inDone []
  | inDone : RunMove P r .inDone r .tail []
  | closeInDone : RunMove P r .inDone r (.closeMark .inDone) []
  | tailSchedules (ht : r.terminated = false) (hw : r.waiting = false)
      (hr : r.runnable P = true) :
      RunMove P r .tail { r with pumpRunning := false } (.schedule true false .release) []
  | tailEnds (h : r.terminated = true ∨ r.waiting = true ∨ r.runnable P = false) :
      RunMove P r .tail { r with pumpRunning := false } .releaseTask []
  | releaseTask (hd : r.releaseTaskRef.2 = false) :
      RunMove P r .releaseTask r.releaseTaskRef.1 (.finished .ok) []
  | releaseTaskDestroys (hd : r.releaseTaskRef.2 = true) :
      RunMove P r .releaseTask r.releaseTaskRef.1 (.destroy false) []
  -- run_destroy_claimed
  | destroy (external : Bool) :
      RunMove P r (.destroy external) { r with closed := true } (.free external) []
  | freeExternal : RunMove P r (.free true) { r with freed := r.freed + 1 } .closeReturned []
  | freeReleased : RunMove P r (.free false) { r with freed := r.freed + 1 } (.finished .ok) []

namespace RunMove

variable {P : Plane δ α ε} {r : RunImpl δ α} {p : RunPoint α ε} {c : RunChoice}
  {m : Move δ α ε}

theorem of_afterUnit {i : Nat} (hd : r.demand ≠ 0) {u : UnitResult δ α}
    (hu : P.Works r.plane u.plane) :
    RunMove P r (.processUnit i) (r.afterUnit (ε := ε) i u).1 (r.afterUnit i u).2 [] := by
  have hpos := Nat.pos_of_ne_zero hd
  cases u with
  | done d more => exact .unitLoop i d _ hu fun _ => .inl hpos
  | value d v => exact .unitValue i d v hu hpos
  | wait d => exact .unitWait i d hu hpos
  | fail d status message => exact .unitFail i d status message none hu (.inl ⟨hpos,rfl⟩)

theorem of_processUnit (i : Nat) :
    RunMove P r (.processUnit i) (r.processUnit P i).1 (r.processUnit P i).2 [] := by
  unfold RunImpl.processUnit
  split
  · exact .unitLoop i _ (some (i+1)) (.inr (.inl rfl)) fun hc => by cases hc
  · rename_i htop
    split
    · exact .unitLoop i r.plane none (.inl rfl) fun _ => .inr (.inr (.inl (by rw [htop]; rfl)))
    · exact of_afterUnit ‹_› (.inr (.inr (.inr (.inr ⟨_,.inl rfl⟩))))
  · split
    · split
      · exact .unitFinish i ‹_›
      · rename_i hnodes
        split
        · exact .unitLoop i r.plane none (.inl rfl) fun _ => .inr (.inr (.inr (by simpa using hnodes)))
        · exact of_afterUnit ‹_› (.inr (.inr (.inr (.inl rfl))))
    · split
      · split
        · exact .unitLoop i r.plane none (.inl rfl) fun _ => .inr (.inl ‹_›)
        · exact .unitLoop i _ (some (i+1)) (.inr (.inr (.inl ⟨‹_›,rfl⟩))) fun hc => by
            cases hc
        · exact .unitFail i r.plane _ _ (some (i+1)) (.inl rfl) (.inr ⟨rfl,_,‹_›,rfl⟩)
      · exact of_afterUnit ‹_› (.inr (.inr (.inr (.inr ⟨_,.inr rfl⟩))))

theorem of_moveCaller (h : r.moveCaller P p c = some m) : RunMove P r p m.1 m.2.1 m.2.2 := by
  unfold moveCaller at h
  split at h
  case h_1 n =>
    split at h
    · rename_i hz
      cases h; exact .requestEnds n _ (hz.elim .inl fun hn => .inr (.inl hn))
    · split at h
      · rename_i hend
        cases h; exact .requestEnds n _ (.inr (.inr (by simpa using hend)))
      · rename_i hend
        simp only [Bool.or_eq_true, not_or, Bool.not_eq_true] at hend
        cases h; exact .request n hend.1 hend.2
  case h_2 =>
    split at h
    · cases h; exact .wakeEnds ‹_›
    · cases h; exact .wake
  case h_3 e => cases h; exact .source e
  case h_4 e =>
    split at h
    · cases h; exact .sourceSilent e ‹_›
    · cases h
  case h_5 k =>
    split at h
    · cases h; exact .cancelEnds k ‹_›
    · cases h; exact .cancel k
  case h_6 =>
    split at h
    · cases h; exact .claimEnds ‹_›
    split at h
    · cases h
    · rename_i hf hclaim
      simp only [Bool.or_eq_true, not_or, Bool.not_eq_true] at hclaim
      cases h; exact .claim (by omega) hclaim.1 hclaim.2
  case h_7 k =>
    cases h
    cases hc : r.closeRequested with
    | false => exact .mark k hc
    | true =>
      have hr : { r with closeRequested := true } = r := by rw [← hc]
      simpa [hr] using RunMove.markAgain k hc
  case h_8 =>
    split at h
    · cases h; exact .closeWait ‹_›
    · cases h
  case h_9 => cases h; exact .closeDestroy
  case h_10 => cases h

theorem of_release {q : RunPoint α ε}
    (hkeep : r.releaseTaskRef.2 = false → RunMove P r p r.releaseTaskRef.1 q [])
    (hdestroy : r.releaseTaskRef.2 = true → RunMove P r p r.releaseTaskRef.1 (.destroy false) []) :
    RunMove P r p r.releaseTaskRef.1 (if r.releaseTaskRef.2 then .destroy false else q) [] := by
  split
  · exact hdestroy ‹_›
  · exact hkeep (Bool.eq_false_iff.2 ‹_›)

theorem of_moveSchedule (h : r.moveSchedule p c = some m) : RunMove P r p m.1 m.2.1 m.2.2 := by
  unfold moveSchedule at h
  split at h
  case h_1 failOnRejection published k =>
    split at h
    · rename_i ha
      simp only [Bool.and_eq_true] at ha
      cases h; exact .admitPump failOnRejection published k ha.1
    · cases h
      refine .unposted failOnRejection published k ?_
      cases hr : r.admits <;> simp_all
  case h_2 generation k => cases h; exact .post generation k
  case h_3 generation k result => cases h; exact .refusePost generation result k
  case h_4 k => cases h; exact .accepted k
  case h_5 generation result k =>
    cases h
    cases hf : r.rejectionFails generation with
    | true => simpa using RunMove.rejectedFails generation result k hf
    | false => simpa using RunMove.rejected generation result k hf
  case h_6 message status k => cases h; exact .notifyRejected message status k
  case h_7 status k => cases h; exact .inRejected status k
  case h_8 status k => cases h; exact .closeInRejected status k
  case h_9 status k =>
    cases h; exact of_release (.releaseRejected status k) (.releaseRejectedDestroys status k)
  case h_10 status k =>
    cases h; exact of_release (.releasePosting status k) (.releasePostingDestroys status k)
  case h_11 => cases h

theorem of_task (generation : Nat) :
    RunMove P r (.task generation)
      (if r.terminated then r.clearScheduledTask else r.clearScheduledTask.takeCancel P)
      .releaseTask [] := by
  cases ht : r.terminated with
  | true => simpa using RunMove.taskEnded generation ht
  | false => simpa using RunMove.taskCancelled generation ht

theorem of_tail : RunMove P r .tail { r with pumpRunning := false }
      (if !r.terminated && !r.waiting && r.runnable P then .schedule true false .release
        else .releaseTask) [] := by
  split
  · rename_i h
    simp only [Bool.and_eq_true, Bool.not_eq_true'] at h
    exact .tailSchedules h.1.1 h.1.2 h.2
  · refine .tailEnds ?_
    cases ht : r.terminated <;> cases hw : r.waiting <;> simp_all

theorem of_movePump (h : r.movePump P p c = some m) : RunMove P r p m.1 m.2.1 m.2.2 := by
  unfold movePump at h
  split at h
  case h_1 generation => cases h; exact .task generation
  case h_2 generation => cases h; exact of_task generation
  case h_3 i =>
    cases h
    split
    · exact .headEnds i ‹_›
    · rename_i hgo
      exact .head i (by simpa using (not_or.1 hgo).2)
  case h_4 i =>
    split at h
    · cases h; exact .takeEnded i ‹_›
    rename_i ht
    split at h
    · cases h; exact .takeCancel i (by simpa using ht) ‹_›
    · cases h; exact .takeNothing i (by simpa using ht)
  case h_5 i => cases h; exact of_processUnit i
  case h_6 i v =>
    split at h
    · cases h; exact .deliverUnasked i v ‹_›
    · cases h; exact .deliver i v
  case h_7 i => cases h; exact .inValue i
  case h_8 i => cases h; exact .refuseValue i
  case h_9 i => cases h; exact .closeInValue i
  case h_10 i => cases h; exact .arm i
  case h_11 i => cases h; exact .arming i
  case h_12 i => cases h; exact .armFails i
  case h_13 message next =>
    split at h
    · cases h; exact .failEnded _ message next ‹_›
    · cases h; exact .fail _ message next (by simp_all)
  case h_14 message next => cases h; exact .notifyError message next
  case h_15 next => cases h; exact .inError next
  case h_16 next => cases h; exact .closeInError next
  case h_17 =>
    split at h
    · cases h; exact .finishEnded ‹_›
    · cases h; exact .finish (by simp_all)
  case h_18 => cases h; exact .notifyDone
  case h_19 => cases h; exact .inDone
  case h_20 => cases h; exact .closeInDone
  case h_21 => cases h; exact of_tail
  case h_22 => cases h; exact of_release .releaseTask .releaseTaskDestroys
  case h_23 external => cases h; exact .destroy external
  case h_24 external =>
    cases h
    cases external
    · exact .freeReleased
    · exact .freeExternal
  case h_25 => cases h

theorem of_move (h : r.move P p c = some m) : RunMove P r p m.1 m.2.1 m.2.2 := by
  simp only [RunImpl.move, Option.or_eq_some_iff] at h
  rcases h with h | ⟨-,h | ⟨-,h⟩⟩
  · exact of_moveCaller h
  · exact of_moveSchedule h
  · exact of_movePump h

end RunMove

/-! ### What the threads hold together -/

open ThreadPool

namespace RunReturn

def refs : RunReturn → Nat
  | .caller => 0
  | .ignored => 0
  | .release => 1
  | .closer => 0
  | .inValue _ => 1
  | .inDone => 1
  | .inError _ => 1
  | .inRejected _ k => 2 + k.refs

def pumps : RunReturn → Nat
  | .inValue _ => 1
  | .inDone => 1
  | .inError _ => 1
  | .inRejected _ k => k.pumps
  | _ => 0

def closers : RunReturn → Nat
  | .closer => 1
  | .inRejected _ k => k.closers
  | _ => 0

theorem pumps_le_refs (k : RunReturn) : k.pumps ≤ k.refs := by
  induction k with
  | inRejected st k ih => simp only [pumps, refs]; omega
  | _ => simp [pumps, refs]

end RunReturn

namespace RunPoint

variable {α ε : Type}

def refs : RunPoint α ε → Nat
  | .request _ => 0
  | .wake => 0
  | .source _ => 0
  | .cancel k => k.refs
  | .closeClaim => 0
  | .closeMark k => k.refs
  | .closeWait => 0
  | .closeDestroy => 0
  | .schedule _ _ k => k.refs
  | .posting _ k => 2 + k.refs
  | .accepted k => 1 + k.refs
  | .rejected _ _ k => 2 + k.refs
  | .notifyRejected _ _ k => 2 + k.refs
  | .inRejected _ k => 2 + k.refs
  | .releaseRejected _ k => 2 + k.refs
  | .releasePosting _ k => 1 + k.refs
  | .destroy _ => 0
  | .free _ => 0
  | .closeReturned => 0
  | .finished _ => 0
  | _ => 1

def pumps : RunPoint α ε → Nat
  | .head _ => 1
  | .takeCancel _ => 1
  | .processUnit _ => 1
  | .deliver _ _ => 1
  | .inValue _ => 1
  | .arm _ => 1
  | .arming _ => 1
  | .fail _ _ _ => 1
  | .notifyError _ _ => 1
  | .inError _ => 1
  | .finish => 1
  | .notifyDone => 1
  | .inDone => 1
  | .tail => 1
  | .cancel k => k.pumps
  | .closeMark k => k.pumps
  | .schedule _ _ k => k.pumps
  | .posting _ k => k.pumps
  | .accepted k => k.pumps
  | .rejected _ _ k => k.pumps
  | .notifyRejected _ _ k => k.pumps
  | .inRejected _ k => k.pumps
  | .releaseRejected _ k => k.pumps
  | .releasePosting _ k => k.pumps
  | _ => 0

def posts : RunPoint α ε → Nat
  | .posting _ _ => 1
  | .accepted _ => 1
  | .rejected _ _ _ => 1
  | _ => 0

def carries : RunPoint α ε → Option Nat
  | .posting g _ => some g
  | .rejected g _ _ => some g
  | .task g => some g
  | _ => none

def holds (p : RunPoint α ε) : Nat := p.carries.isSome.toNat

def notifies : RunPoint α ε → Nat
  | .notifyRejected _ _ _ => 1
  | .notifyError _ _ => 1
  | .notifyDone => 1
  | _ => 0

def closers : RunPoint α ε → Nat
  | .closeWait => 1
  | .closeDestroy => 1
  | .cancel k => k.closers
  | .closeMark k => k.closers
  | .schedule _ _ k => k.closers
  | .posting _ k => k.closers
  | .accepted k => k.closers
  | .rejected _ _ k => k.closers
  | .notifyRejected _ _ k => k.closers
  | .inRejected _ k => k.closers
  | .releaseRejected _ k => k.closers
  | .releasePosting _ k => k.closers
  | _ => 0

def destroys : RunPoint α ε → Nat
  | .destroy _ => 1
  | .free _ => 1
  | _ => 0

def opens : RunPoint α ε → Bool
  | .processUnit _ => true
  | .deliver _ _ => true
  | _ => false

theorem opens_pumps {p : RunPoint α ε} (h : p.opens = true) : p.pumps = 1 := by
  cases p <;> simp_all [opens, pumps]

@[simp] theorem weights_back (st : Status) (k : RunReturn) :
    (back st k : RunPoint α ε).refs = k.refs ∧ (back st k : RunPoint α ε).pumps = k.pumps ∧
      (back st k : RunPoint α ε).closers = k.closers ∧ (back st k : RunPoint α ε).posts = 0 ∧
      (back st k : RunPoint α ε).carries = none ∧ (back st k : RunPoint α ε).holds = 0 ∧
      (back st k : RunPoint α ε).notifies = 0 ∧ (back st k : RunPoint α ε).destroys = 0 ∧
      (back st k : RunPoint α ε).opens = false := by
  cases k <;> exact ⟨rfl,rfl,rfl,rfl,rfl,rfl,rfl,rfl,rfl⟩

@[simp] theorem weights_loop (next : Option Nat) :
    (loop next : RunPoint α ε).refs = 1 ∧ (loop next : RunPoint α ε).pumps = 1 ∧
      (loop next : RunPoint α ε).closers = 0 ∧ (loop next : RunPoint α ε).posts = 0 ∧
      (loop next : RunPoint α ε).carries = none ∧ (loop next : RunPoint α ε).holds = 0 ∧
      (loop next : RunPoint α ε).notifies = 0 ∧ (loop next : RunPoint α ε).destroys = 0 ∧
      (loop next : RunPoint α ε).opens = false := by
  cases next <;> exact ⟨rfl,rfl,rfl,rfl,rfl,rfl,rfl,rfl,rfl⟩

end RunPoint

theorem RunPoint.entry_cases {α ε : Type} {p : RunPoint α ε} (h : p.entry = true) :
    (∃ n, p = .request n) ∨ p = .wake ∨ (∃ e, p = .source e) ∨ p = .cancel .ignored ∨
      p = .closeClaim := by
  cases p with
  | cancel k => cases k <;> simp [entry] at h ⊢
  | _ => simp [entry] at h ⊢

attribute [local simp] takeTaskRefs joinScheduled releaseTaskRef rejectPost RunImpl.takeCancel
  clearScheduledTask failStatus addDemand

def ends {α : Type} (log : List (SinkEvent α)) : Nat := log.countP SinkEvent.ends

variable {δ α ε : Type} {P : Plane δ α ε} {r t : RunImpl δ α} {p q : RunPoint α ε}
  {new : List (RunPoint α ε)}

theorem RunMove.refs_balance (h : RunMove P r p t q new) (hp : p.refs ≤ r.taskRefs) :
    t.taskRefs + p.refs = r.taskRefs + q.refs + load refs new := by
  cases h
  case releaseRejectedDestroys hd | releasePostingDestroys hd =>
    simp at hd
    simp only [RunImpl.releaseTaskRef, refs, load_nil] at hp ⊢
    omega
  -- the points behind a call first: their weight is that of the call below
  all_goals try simp only [weights_back, weights_loop]
  all_goals simp [refs, RunReturn.refs] at hp ⊢
  all_goals omega

theorem RunMove.posts_balance (h : RunMove P r p t q new) (hp : p.posts ≤ r.taskPosting) :
    t.taskPosting + p.posts = r.taskPosting + q.posts + load posts new := by
  cases h
  all_goals try simp only [weights_back, weights_loop]
  all_goals simp [posts] at hp ⊢
  all_goals omega

theorem admits_iff : r.admits = true ↔ r.closed = false ∧ r.terminated = false ∧
    r.pumpRunning = false ∧ r.waiting = false ∧ r.taskScheduled = false := by
  simp [RunImpl.admits, and_assoc]

theorem RunMove.holds_balance (h : RunMove P r p t q new) (hp : p.holds ≤ r.taskScheduled.toNat)
    (hg : ∀ g, p.carries = some g → g = r.scheduledTaskGeneration) :
    t.taskScheduled.toNat + p.holds = r.taskScheduled.toNat + q.holds + load holds new := by
  cases h
  case admitPump ha => simp [holds, carries, (admits_iff.1 ha).2.2.2.2]
  case task | taskEnded | taskCancelled | rejected | rejectedFails =>
    -- the thread has the scheduled task, so the flag is up and its generation is the current one
    simp only [carries] at hg
    cases hs : r.taskScheduled <;> simp_all [holds, carries, RunImpl.current]
  all_goals try simp only [weights_back, weights_loop]
  all_goals simp [holds, carries]

theorem RunMove.pumps_balance (h : RunMove P r p t q new) (hp : p.pumps ≤ r.pumpRunning.toNat)
    (hr : p.refs ≤ r.taskRefs) (hx : p.holds = 1 → r.pumpRunning = false) :
    t.pumpRunning.toNat + p.pumps = r.pumpRunning.toNat + q.pumps + load pumps new := by
  cases h
  case task => simp_all [holds, carries, pumps]
  case tailSchedules | tailEnds =>
    cases hs : r.pumpRunning <;> simp_all [pumps, RunReturn.pumps]
  case releaseRejectedDestroys k hd | releasePostingDestroys k hd =>
    have := RunReturn.pumps_le_refs k
    simp at hd
    simp only [RunImpl.releaseTaskRef, refs, pumps, load_nil] at hr ⊢
    omega
  all_goals try simp only [weights_back, weights_loop]
  all_goals simp [pumps, RunReturn.pumps] at hp ⊢

theorem RunMove.notifies_balance (h : RunMove P r p t q new) :
    t.terminated.toNat + p.notifies + ends r.log =
      r.terminated.toNat + q.notifies + load notifies new + ends t.log := by
  cases h
  case rejectedFails generation result k hf =>
    have ht : r.terminated = false := by simp_all [RunImpl.rejectionFails]
    simp [notifies, hf, ht]
  all_goals try simp only [weights_back, weights_loop]
  all_goals simp_all [notifies, ends, SinkEvent.ends]
  all_goals omega

/-! ### Invariants of every interleaving -/

open ThreadPool

abbrev RunSystem (δ α ε : Type) := Config (RunImpl δ α) (RunPoint α ε)

abbrev RunAction (α ε : Type) := Act (RunPoint α ε) RunChoice

def runStep (P : Plane δ α ε) : RunSystem δ α ε → RunAction α ε → Option (RunSystem δ α ε) :=
  ThreadPool.step (RunImpl.move P) entry

/-- A subscription as `cflow_subscribe` leaves it. -/
def Subscribed (s : RunSystem δ α ε) : Prop :=
  s.threads = [] ∧ ∃ d, s.shared = { plane := d }

structure RunInv (s : RunSystem δ α ε) : Prop where
  refs : s.shared.taskRefs = load refs s.threads
  posting : s.shared.taskPosting = load posts s.threads
  pump : s.shared.pumpRunning.toNat = load pumps s.threads
  scheduled : s.shared.taskScheduled.toNat = load holds s.threads
  exclusive : s.shared.taskScheduled = true → s.shared.pumpRunning = false
  generation : ∀ p ∈ s.threads, ∀ g, p.carries = some g → g = s.shared.scheduledTaskGeneration
  opened : ∀ p ∈ s.threads, p.opens = true → s.shared.terminated = false
  notices : s.shared.terminated.toNat = load notifies s.threads + ends s.shared.log
  values : ∀ e ∈ s.shared.log.dropLast, e.ends = false

section Moves

variable {P : Plane δ α ε} {r t : RunImpl δ α} {p q : RunPoint α ε} {new : List (RunPoint α ε)}

section

variable (h : RunMove P r p t q new)

include h

theorem RunMove.exclusive (hx : r.taskScheduled = true → r.pumpRunning = false) :
    t.taskScheduled = true → t.pumpRunning = false := by
  cases h
  case admitPump ha => exact fun _ => (admits_iff.1 ha).2.2.1
  all_goals simp_all

theorem RunMove.generation_eq :
    t.scheduledTaskGeneration = r.scheduledTaskGeneration ∨ r.taskScheduled = false := by
  cases h
  case admitPump ha => exact .inr (admits_iff.1 ha).2.2.2.2
  all_goals exact .inl rfl

theorem RunMove.carries_eq (hg : ∀ g, p.carries = some g → g = r.scheduledTaskGeneration) :
    ∀ g, q.carries = some g → g = t.scheduledTaskGeneration := by
  cases h
  all_goals try simp only [weights_back, weights_loop]
  all_goals simp_all [carries]

theorem RunMove.started : ∀ x ∈ new,
    x.carries = p.carries ∧ t.scheduledTaskGeneration = r.scheduledTaskGeneration := by
  cases h <;> simp [carries]

theorem RunMove.started_task : ∀ x ∈ new, ∃ g, x = .task g := by
  cases h <;> simp

theorem RunMove.forall_threads {threads : List (RunPoint α ε)} {i : Nat}
    {T : RunImpl δ α → RunPoint α ε → Prop} (hr : ∀ x ∈ threads, T r x) (hq : T t q)
    (htask : ∀ g, T t (.task g)) (hother : ∀ j x, j ≠ i → threads[j]? = some x → T r x → T t x) :
    ∀ x ∈ threads.set i q ++ new, T t x := by
  refine forall_move hr hq (fun x hx => ?_) hother
  obtain ⟨g,rfl⟩ := h.started_task x hx
  exact htask g

end

theorem RunMove.terminated_eq (h : RunMove P r p t q new) :
    t.terminated = r.terminated ∨ p.pumps = 1 ∨ p.holds = 1 := by
  cases h
  case rejected | rejectedFails | taskCancelled => exact .inr (.inr rfl)
  case takeCancel | fail | finish => exact .inr (.inl rfl)
  all_goals exact .inl rfl

theorem RunMove.opens_terminated (h : RunMove P r p t q new)
    (hp : p.opens = true → r.terminated = false) : q.opens = true → t.terminated = false := by
  cases h
  all_goals try simp only [weights_back, weights_loop]
  all_goals simp_all [opens]

theorem RunMove.log_eq (h : RunMove P r p t q new) :
    t.log = r.log ∨
      ∃ e, t.log = r.log ++ [e] ∧ (p.opens = true ∨ r.terminated = false ∨ p.notifies = 1) := by
  cases h
  case deliver | notifyDone | notifyError | notifyRejected | takeCancel | taskCancelled =>
    exact .inr ⟨_,rfl,by simp_all [opens, notifies]⟩
  all_goals exact .inl rfl

end Moves

theorem ends_eq_zero {log : List (SinkEvent α)} (h : ends log = 0) : ∀ e ∈ log, e.ends = false := by
  simpa [ends] using h

namespace RunInv

variable {P : Plane δ α ε} {s : RunSystem δ α ε} {t : RunImpl δ α} {p q : RunPoint α ε}
  {new : List (RunPoint α ε)} {i : Nat}

theorem subscribed (h : Subscribed s) : RunInv s := by
  obtain ⟨shared,threads⟩ := s
  obtain ⟨rfl,d,rfl⟩ := h
  exact ⟨rfl,rfl,rfl,rfl,by simp,by simp,by simp,rfl,by simp⟩

theorem turn_le (h : RunInv s) : load pumps s.threads + load holds s.threads ≤ 1 := by
  rw [← h.pump, ← h.scheduled]
  have := h.exclusive
  cases hs : s.shared.taskScheduled <;> cases hp : s.shared.pumpRunning <;> simp_all

theorem other_pumps (h : RunInv s) (hp : s.threads[i]? = some p) (hturn : p.pumps = 1 ∨ p.holds = 1)
    {j : Nat} {x : RunPoint α ε} (hj : s.threads[j]? = some x) (hij : j ≠ i) : x.pumps = 0 := by
  have hsum := weight_add_le_load (w := pumps) hp hj hij.symm
  have hh := weight_le_load (w := holds) (List.mem_of_getElem? hp)
  have := h.turn_le
  omega

theorem ends_zero (h : RunInv s) (hp : p ∈ s.threads)
    (hopen : p.opens = true ∨ s.shared.terminated = false ∨ p.notifies = 1) :
    ends s.shared.log = 0 := by
  have hn := h.notices
  rcases hopen with ho | ht | h1
  · simp only [h.opened p hp ho, Bool.toNat_false] at hn
    omega
  · simp only [ht, Bool.toNat_false] at hn
    omega
  · have := weight_le_load (w := notifies) hp
    have := Bool.toNat_le s.shared.terminated
    omega

theorem move (h : RunInv s) (hp : s.threads[i]? = some p) (hm : RunMove P s.shared p t q new) :
    RunInv { shared := t, threads := s.threads.set i q ++ new } := by
  have hmem := List.mem_of_getElem? hp
  have hrefs : p.refs ≤ s.shared.taskRefs := h.refs ▸ weight_le_load hmem
  have hposts : p.posts ≤ s.shared.taskPosting := h.posting ▸ weight_le_load hmem
  have hpumps : p.pumps ≤ s.shared.pumpRunning.toNat := h.pump ▸ weight_le_load hmem
  have hholds : p.holds ≤ s.shared.taskScheduled.toNat := h.scheduled ▸ weight_le_load hmem
  have hx : p.holds = 1 → s.shared.pumpRunning = false := by
    exact fun h1 => h.exclusive (flag_of_pos (by omega))
  constructor
  · exact balanced_move h.refs hp (hm.refs_balance hrefs)
  · exact balanced_move h.posting hp (hm.posts_balance hposts)
  · exact balanced_move h.pump hp
      (hm.pumps_balance hpumps hrefs hx)
  · exact balanced_move h.scheduled hp
      (hm.holds_balance hholds (h.generation p hmem))
  · exact hm.exclusive h.exclusive
  · refine forall_move (T := fun (r : RunImpl δ α) (p : RunPoint α ε) =>
      ∀ g, p.carries = some g → g = r.scheduledTaskGeneration) h.generation
      (hm.carries_eq (h.generation p hmem)) ?_ ?_
    · intro x hx g hg
      obtain ⟨hc,ht⟩ := hm.started x hx
      exact ht ▸ h.generation p hmem g (hc ▸ hg)
    · intro j x _ hj hgx g hg
      rcases hm.generation_eq with heq | hfree
      · exact heq ▸ hgx g hg
      -- nobody has a task when a new generation opens
      have := weight_le_load (w := holds) (List.mem_of_getElem? hj)
      rw [← h.scheduled, hfree] at this
      simp [holds, hg] at this
  · refine hm.forall_threads (T := fun r p => p.opens = true → r.terminated = false) h.opened
      (hm.opens_terminated (h.opened p hmem)) (fun g ho => ?_) ?_
    · cases ho
    · intro j x hij hj hox ho
      rcases hm.terminated_eq with heq | hturn
      · exact heq ▸ hox ho
      · have := h.other_pumps hp hturn hj hij
        rw [opens_pumps ho] at this
        omega
  · have hb := hm.notifies_balance
    have hl := load_step (w := notifies) q new hp
    have := h.notices
    show t.terminated.toNat = load notifies (s.threads.set i q ++ new)+ends t.log
    omega
  · rcases hm.log_eq with heq | ⟨e,heq,hopen⟩
    · exact heq ▸ h.values
    · rw [heq, List.dropLast_concat]
      exact ends_eq_zero (h.ends_zero hmem hopen)

theorem enter (h : RunInv s) (hp : p.entry = true) :
    RunInv { shared := s.shared, threads := s.threads ++ [p] } := by
  have hw : p.refs = 0 ∧ p.posts = 0 ∧ p.pumps = 0 ∧ p.holds = 0 ∧ p.notifies = 0 ∧
      p.carries = none ∧ p.opens = false := by
    rcases entry_cases hp with ⟨n,rfl⟩ | rfl | ⟨e,rfl⟩ | rfl | rfl <;>
      exact ⟨rfl,rfl,rfl,rfl,rfl,rfl,rfl⟩
  obtain ⟨hr,hpo,hpu,hh,hn,hc,ho⟩ := hw
  refine ⟨?_,?_,?_,?_,h.exclusive,?_,?_,?_,h.values⟩
  · simpa [hr] using h.refs
  · simpa [hpo] using h.posting
  · simpa [hpu] using h.pump
  · simpa [hh] using h.scheduled
  · simpa [or_imp, forall_and, hc] using h.generation
  · simpa [or_imp, forall_and, ho] using h.opened
  · simpa [hn] using h.notices

end RunInv

end Salts.CFlow
