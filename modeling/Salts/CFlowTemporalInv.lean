import Salts.CFlowTemporal

/-!
The invariant that ties the flag `timer_outstanding` of a temporal adapter to the timer tasks it
has posted, and its preservation by the thread that resumes and arms the adapter.
-/

namespace Salts.CFlow

open TemporalState
open Transition (exec exec_shows_and)
open Bool (toNat_false toNat_le)
open Option (ite_none_right_eq_some some)

namespace TemporalPoint

variable {α : Type}

/-- How many tasks the call in progress stands for with its flag: one it is about to post, or one
that is cancelled and whose flag it has still to clear. -/
@[simp] def inTransit (timerArming : Bool) : TemporalPoint α → Nat
  | .armInner needTimer _ => needTimer.toNat
  | .armCall needTimer _ => needTimer.toNat
  | .armPost _ => 1
  | .armRejected => 1
  | .armClear => 1
  | .restartClear _ => 1
  | .failClear => 1
  | .fail => timerArming.toNat
  | _ => 0

/-- The points of `temporal_wait_arm` between its two locked parts, with a timer to post. -/
@[simp] def arms : TemporalPoint α → Bool
  | .armInner needTimer _ => needTimer
  | .armCall needTimer _ => needTimer
  | .armPost _ => true
  | .armRejected => true
  | _ => false

/-- The points at which the call in progress has taken the recorded task, or has still to record
the one it posted. -/
@[simp] def taskless : TemporalPoint α → Bool
  | .restartCancel _ _ => true
  | .armPosted _ => true
  | .armCancel _ => true
  | .failCancel _ => true
  | _ => false

@[simp] def resumes : TemporalPoint α → Bool
  | .idle => true
  | .take => true
  | .inner _ _ _ _ => true
  | .restart _ => true
  | .restartLost _ => true
  | .finish _ => true
  | .armInner needTimer _ => !needTimer
  | .armCall needTimer _ => !needTimer
  | _ => false

@[simp] def clears : TemporalPoint α → Bool
  | .restartClear _ => true
  | .armClear => true
  | .failClear => true
  | _ => false

@[simp] def cancels : TemporalPoint α → Bool
  | .restartCancel _ _ => true
  | .armCancel _ => true
  | .failCancel _ => true
  | _ => false

end TemporalPoint

variable {task : Nat}

namespace TemporalSystem

variable {α : Type} {s t : TemporalSystem α} {a : TemporalAction α}

def inTransit (s : TemporalSystem α) : Nat :=
  s.point.inTransit s.state.timerArming + s.clearing + (if s.destroy = .clear then 1 else 0)

def Posted (s : TemporalSystem α) (id : Nat) : Prop := ∃ t ∈ s.timers.tasks, t.id = id

structure TimerInv (s : TemporalSystem α) : Prop where
  count : s.timers.tasks.length + s.inTransit = s.state.timerOutstanding.toNat
  below : ∀ u ∈ s.timers.tasks, u.id < s.timers.nextId
  task : ∀ id, s.state.timerTask = some id → s.Posted id
  taken : ∀ id ∈ s.cancelling, id < s.timers.nextId ∧ s.state.timerTask ≠ some id
  taskless : s.point.taskless = true ∨ s.destroy ≠ .alive ∧ s.destroy ≠ .cancel →
    s.state.timerTask = none
  arming : s.state.timerArming = true →
    s.point.arms = true ∨ (∃ id, s.point = .armPosted id) ∨ s.point = .fail
  arms : s.point.arms = true → s.state.timerArming = true
  posted : ∀ id, s.point = .armPosted id → id ∉ s.cancelling ∧
    ((s.state.timerArming = true ∧ s.Posted id) ∨ s.state.closed = true ∨
      s.state.readyCause ≠ .none)
  destroyed : s.destroy ≠ .alive → s.point = .idle
  released : s.destroy = .released → s.state.timerOutstanding = false

theorem timerInv_create (kind : TemporalKind) (ticks : Nat) :
    TimerInv (create kind ticks : TemporalSystem α) := by
  constructor <;> simp [create, inTransit]

theorem TimerInv.length_le_one (h : TimerInv s) : s.timers.tasks.length ≤ 1 := by
  have := h.count
  have := toNat_le s.state.timerOutstanding
  omega

theorem TimerInv.task_none (h : TimerInv s) (hempty : s.timers.tasks = []) :
    s.state.timerTask = none := by
  cases htask : s.state.timerTask with
  | none => rfl
  | some id =>
    obtain ⟨u,hu,-⟩ := h.task id htask
    simp [hempty] at hu

theorem TimerInv.alive (h : TimerInv s) (hp : s.point ≠ .idle) : s.destroy = .alive := by
  by_contra hd
  exact hp (h.destroyed hd)

theorem TimerInv.idle_arming (h : TimerInv s) (harms : s.point.arms = false)
    (hposted : ∀ id, s.point ≠ .armPosted id) (hfail : s.point ≠ .fail) :
    s.state.timerArming = false := by
  by_contra ha
  rcases h.arming (by simpa using ha) with hq | ⟨id,hq⟩ | hq
  · rw [harms] at hq
    cases hq
  · exact hposted id hq
  · exact hfail hq

variable {p : TemporalPoint α}

theorem resumes_facts (hp : p.resumes = true) (b : Bool) :
    p.inTransit b = 0 ∧ p.taskless = false ∧ p.arms = false ∧ (∀ id, p ≠ .armPosted id) ∧
      p ≠ .fail := by
  cases p <;> simp_all

theorem TimerInv.not_arming (h : TimerInv s) (hp : s.point.resumes = true) :
    s.state.timerArming = false := by
  obtain ⟨-,-,harms,hposted,hfail⟩ := resumes_facts hp false
  exact h.idle_arming harms hposted hfail

theorem arms_facts (hp : p.arms = true) (b : Bool) :
    p.inTransit b = 1 ∧ p.taskless = false ∧ (∀ id, p ≠ .armPosted id) ∧ p ≠ .idle := by
  cases p <;> simp_all

theorem TimerInv.of_resumes {u : TemporalSystem α} (hp : u.point.resumes = true)
    (hcount : u.timers.tasks.length + u.clearing + (if u.destroy = .clear then 1 else 0) =
      u.state.timerOutstanding.toNat)
    (hbelow : ∀ v ∈ u.timers.tasks, v.id < u.timers.nextId)
    (htask : ∀ id, u.state.timerTask = some id → u.Posted id)
    (htaken : ∀ id ∈ u.cancelling, id < u.timers.nextId ∧ u.state.timerTask ≠ some id)
    (hdestroy : u.destroy ≠ .alive ∧ u.destroy ≠ .cancel → u.state.timerTask = none)
    (harming : u.state.timerArming = false) (hdestroyed : u.destroy ≠ .alive → u.point = .idle)
    (hreleased : u.destroy = .released → u.state.timerOutstanding = false) : TimerInv u := by
  obtain ⟨h1,h2,h3,h4,-⟩ := resumes_facts hp u.state.timerArming
  refine ⟨?_,hbelow,htask,htaken,?_,?_,?_,?_,hdestroyed,hreleased⟩
  · unfold inTransit
    omega
  · rw [h2]
    simpa using hdestroy
  · simp [harming]
  · rw [h3]
    simp
  · exact fun id hid => absurd hid (h4 id)

theorem TimerInv.resumes (h : TimerInv s) {u : TemporalState α}
    {l : Option (Step α)} (hs : s.point.resumes = true) (hp : p.resumes = true)
    (halive : s.destroy ≠ .alive → p = .idle) (hu : TemporalState.SameTimer s.state u) :
    TimerInv { s with state := u, point := p, last := l } := by
  obtain ⟨ho,ht,ha⟩ := hu
  refine .of_resumes hp ?_ h.below ?_ ?_ ?_ (ha.trans (h.not_arming hs)) halive ?_
  · have := h.count
    rw [inTransit, (resumes_facts hs _).1] at this
    dsimp only
    rw [ho]
    omega
  · exact fun id hid => h.task id (ht ▸ hid)
  · exact fun id hid => ⟨(h.taken id hid).1,ht ▸ (h.taken id hid).2⟩
  · exact fun hd => ht.trans (h.taskless (.inr hd))
  · exact fun hd => ho.trans (h.released hd)

theorem clears_facts (hp : p.clears = true) (b : Bool) :
    p.inTransit b = 1 ∧ p.taskless = false ∧ p.arms = false ∧ (∀ id, p ≠ .armPosted id) ∧
      p ≠ .fail ∧ p ≠ .idle := by
  cases p <;> simp at hp ⊢

theorem cancels_facts (hp : p.cancels = true) (b : Bool) :
    p.inTransit b = 0 ∧ p.taskless = true ∧ p.arms = false ∧ (∀ id, p ≠ .armPosted id) ∧
      p ≠ .fail ∧ p ≠ .idle := by
  cases p <;> simp at hp ⊢

section

variable (h : TimerInv s)

include h

theorem timerInv_cancelPosted {won lost : TemporalPoint α}
    (hs : s.point.cancels = true) (hwon : won.clears = true) (hlost : lost.resumes = true) :
    TimerInv (s.cancelPosted task won lost) := by
  obtain ⟨hzero,htaskless,harms,hposted,hfail,hidle⟩ := cancels_facts hs s.state.timerArming
  have halive := h.alive hidle
  have hnone := h.taskless (.inl htaskless)
  have harming := h.idle_arming harms hposted hfail
  have hcount := h.count
  rw [inTransit] at hcount
  unfold cancelPosted
  split
  · rename_i hq
    obtain ⟨hlen,hempty⟩ := Timers.remove_single h.length_le_one (Timers.mem_of_queued hq)
    obtain ⟨w1,w2,w3,w4,-,w6⟩ := clears_facts hwon s.state.timerArming
    refine ⟨?_,?_,?_,h.taken,fun _ => hnone,?_,fun ha => absurd (w3.symm.trans ha) (by decide),
      ?_,?_,?_⟩
    · simp only [inTransit, hempty, List.length_nil]
      omega
    all_goals simp [hempty, hnone, harming, w4, halive]
  · refine .of_resumes hlost ?_ h.below h.task h.taken (fun _ => hnone) harming ?_ ?_
    · dsimp only
      omega
    all_goals simp [halive]

theorem TimerInv.clear (hs : s.point.clears = true) (hp : p.resumes = true) :
    TimerInv { s with state := s.state.clearOutstanding, point := p } := by
  obtain ⟨hone,-,harms,hposted,hfail,hidle⟩ := clears_facts hs s.state.timerArming
  have halive := h.alive hidle
  have harming := h.idle_arming harms hposted hfail
  have hcount := h.count
  have hflag := toNat_le s.state.timerOutstanding
  rw [inTransit] at hcount
  refine .of_resumes hp ?_ h.below h.task h.taken ?_ harming ?_ fun _ => rfl
  · simp only [clearOutstanding, toNat_false]
    omega
  all_goals simp [halive]

theorem TimerInv.goOn (hs : s.point.resumes = true) (hp : s.point ≠ .idle)
    {r : TemporalState α × TemporalNext α} (hu : TemporalState.SameTimer s.state r.1) :
    TimerInv (s.goOn r) := by
  refine h.resumes hs ?_ (by simp [h.alive hp]) hu
  cases r.2 <;> rfl

theorem timerInv_restart {f : TemporalFinish α} (hp : s.point = .restart f)
    (hs : s.advance = some t) : TimerInv t := by
  have halive := h.alive (by simp [hp])
  have harming := h.not_arming (by simp [hp])
  have hcount := h.count
  simp only [advance, hp, restartTimer] at hs
  simp only [inTransit, hp] at hcount
  split at hs
  · cases hs
    refine ⟨?_,h.below,?_,fun id hid => ⟨(h.taken id hid).1,?_⟩,?_,?_,?_,?_,?_,?_⟩
    · simpa [inTransit] using hcount
    all_goals simp [harming, halive]
  · rename_i hnone
    cases hs
    exact h.resumes (by simp [hp]) rfl (by simp [halive])
      ⟨rfl,hnone.symm,rfl⟩

/-- The second locked part of `temporal_wait_arm` records the task, unless the timer has fired in
between or the adapter has been closed. -/
theorem timerInv_armPosted (hp : s.point = .armPosted task)
    (hs : s.advance = some t) : TimerInv t := by
  have halive := h.alive (by simp [hp])
  have hnone := h.taskless (.inl (by simp [hp]))
  obtain ⟨hfresh,hposted⟩ := h.posted task hp
  have hcount := h.count
  simp only [advance, hp, armPosted] at hs
  simp only [inTransit, hp, TemporalPoint.inTransit] at hcount
  split at hs
  · cases hs
    refine ⟨?_,h.below,?_,h.taken,?_,?_,?_,?_,?_,?_⟩
    · simpa [inTransit] using hcount
    all_goals simp [hnone, halive]
  · rename_i hopen
    cases hs
    have hlive : s.Posted task := by
      rcases hposted with ⟨-,hlive⟩ | hclosed | hready
      · exact hlive
      · simp [hclosed] at hopen
      · simp [hready] at hopen
    refine .of_resumes rfl ?_ h.below ?_ ?_ ?_ rfl ?_ ?_
    · dsimp only
      omega
    · rintro id ⟨⟩
      exact hlive
    · rintro id hid
      refine ⟨(h.taken id hid).1,?_⟩
      rintro ⟨⟩
      exact hfresh hid
    all_goals simp [halive]

theorem timerInv_fail (hp : s.point = .fail) (hs : s.advance = some t) : TimerInv t := by
  have halive := h.alive (by simp [hp])
  have hcount := h.count
  have hflag := toNat_le s.state.timerOutstanding
  simp only [advance, hp, cancelActiveWait] at hs
  simp only [inTransit, hp, TemporalPoint.inTransit] at hcount
  split at hs
  · rename_i task htask
    cases hs
    -- a recorded task is a posted one, so this arm had none to post
    have harming : s.state.timerArming = false := by
      obtain ⟨u,hu,-⟩ := h.task task htask
      have := List.length_pos_of_mem hu
      cases ha : s.state.timerArming
      · rfl
      · rw [ha] at hcount
        simp at hcount
        omega
    rw [harming] at hcount
    refine ⟨?_,h.below,?_,fun id hid => ⟨(h.taken id hid).1,?_⟩,?_,?_,?_,?_,?_,?_⟩
    · simpa [inTransit, htask] using hcount
    all_goals simp [halive]
  · rename_i hnone
    cases hs
    refine .of_resumes rfl ?_ h.below ?_ (fun id hid => ⟨(h.taken id hid).1,?_⟩) ?_ rfl ?_ ?_
    · simp only [hnone, Option.isNone_none, Bool.true_and]
      cases ha : s.state.timerArming
      · rw [ha] at hcount
        simp only [toNat_false, Bool.false_eq_true, if_false] at hcount ⊢
        omega
      · simp only [ha, Bool.toNat_true] at hcount
        simp only [if_true, toNat_false]
        omega
    all_goals simp [halive]

theorem TimerInv.armsOn {u : TemporalState α} (hs : s.point.arms = true) (hp : p.arms = true)
    (hu : TemporalState.SameTimer s.state u) : TimerInv { s with state := u, point := p } := by
  obtain ⟨ho,ht,ha⟩ := hu
  obtain ⟨hone,-,-,hidle⟩ := arms_facts hs s.state.timerArming
  obtain ⟨hone',htaskless,hposted,-⟩ := arms_facts hp u.timerArming
  have halive := h.alive hidle
  have hcount := h.count
  rw [inTransit] at hcount
  refine ⟨?_,h.below,?_,?_,?_,fun _ => .inl hp,fun _ => ha.trans (h.arms hs),?_,?_,?_⟩
  · simp only [inTransit, ho]
    omega
  · exact fun id hid => h.task id (ht ▸ hid)
  · exact fun id hid => ⟨(h.taken id hid).1,ht ▸ (h.taken id hid).2⟩
  · rw [htaskless]
    simp [halive]
  all_goals simp [hposted, halive]

theorem TimerInv.fails (hs : s.point.arms = true ∨ s.point.resumes = true)
    (hidle : s.point ≠ .idle) : TimerInv { s with point := .fail } := by
  have halive := h.alive hidle
  have hcount := h.count
  have hsame : s.point.inTransit s.state.timerArming = s.state.timerArming.toNat := by
    rcases hs with hs | hs
    · rw [(arms_facts hs _).1, h.arms hs]
      rfl
    · rw [(resumes_facts hs _).1, h.not_arming hs]
      rfl
  refine ⟨?_,h.below,h.task,h.taken,?_,fun _ => .inr (.inr rfl),?_,?_,?_,?_⟩
  · rw [inTransit, hsame] at hcount
    simpa only [inTransit, TemporalPoint.inTransit] using hcount
  all_goals simp [halive]

theorem timerInv_armRejected (hp : s.point = .armRejected) :
    TimerInv { s with state := s.state.armRejected, point := .fail } := by
  have halive := h.alive (by simp [hp])
  have hcount := h.count
  have hflag := toNat_le s.state.timerOutstanding
  simp only [inTransit, hp, TemporalPoint.inTransit] at hcount
  refine ⟨?_,h.below,h.task,h.taken,?_,?_,?_,?_,?_,?_⟩
  · simp only [inTransit, TemporalPoint.inTransit, armRejected]
    omega
  all_goals simp [halive, armRejected]

theorem timerInv_advance (hs : s.advance = some t) : TimerInv t := by
  have hadvance := hs
  cases hp : s.point <;> simp only [advance, hp, some.injEq, reduceCtorEq] at hs <;>
    try subst hs
  case take =>
    refine h.goOn (by simp [hp]) (by simp [hp]) ?_
    obtain ⟨h1,h2,h3⟩ := s.state.takeReady.1.sameTimer_resumeStart s.state.takeReady.2.1
    exact ⟨h1,h2,h3⟩
  case restart f => exact timerInv_restart h hp hadvance
  case armPosted task => exact timerInv_armPosted h hp hadvance
  case armRejected => exact timerInv_armRejected h hp
  case fail => exact timerInv_fail h hp hadvance
  case restartCancel | armCancel | failCancel =>
    exact timerInv_cancelPosted h (by simp [hp]) rfl rfl
  case restartClear | armClear | failClear => exact h.clear (by simp [hp]) rfl
  case restartLost f =>
    exact h.resumes (by simp [hp]) rfl (by simp [h.alive (by simp [hp])]) ⟨rfl,rfl,rfl⟩
  case finish f =>
    exact h.resumes (by simp [hp]) rfl (fun _ => rfl) (s.state.sameTimer_resumeFinish f)
  case armInner needTimer ticks =>
    cases needTimer with
    | true => exact h.armsOn (by simp [hp]) rfl ⟨rfl,rfl,rfl⟩
    | false =>
      exact h.resumes (by simp [hp]) rfl (by simp [h.alive (by simp [hp])]) ⟨rfl,rfl,rfl⟩

end

end TemporalSystem

/-! ### Runs that keep the flag -/

namespace TemporalSystem

variable {α : Type} {s t : TemporalSystem α} {a : TemporalAction α}

theorem timerInv_fire (h : TimerInv s) (hr : s.timers.runs task = true) :
    TimerInv { s with timers := s.timers.remove task, state := s.state.timerFire.1 } := by
  obtain ⟨hlen,hempty⟩ := Timers.remove_single h.length_le_one (Timers.mem_of_runs hr)
  have hcount := h.count
  have hflag := toNat_le s.state.timerOutstanding
  have hzero : s.inTransit = 0 := by omega
  have hfire : s.state.timerFire.1.timerOutstanding = false ∧
      s.state.timerFire.1.timerTask = none ∧
      (s.state.timerFire.1.timerArming = true → s.state.timerArming = true) ∧
      s.state.timerFire.1.closed = s.state.closed := by
    unfold timerFire
    split <;> simp [closed]
  obtain ⟨hout,hnone,harming,hclosed⟩ := hfire
  have hpoint : s.point.inTransit s.state.timerFire.1.timerArming = 0 := by
    cases hp : s.point <;> simp_all [inTransit]
  refine ⟨?_,?_,?_,?_,?_,?_,?_,?_,h.destroyed,fun _ => hout⟩
  · simp only [inTransit, hempty, hout, List.length_nil, toNat_false]
    unfold inTransit at hzero
    omega
  · simp [hempty]
  · simp [hnone]
  · exact fun id hid => ⟨(h.taken id hid).1,by simp [hnone]⟩
  · exact fun _ => hnone
  · exact fun ha => h.arming (harming ha)
  · intro harms
    have hone := (arms_facts harms s.state.timerArming).1
    unfold inTransit at hzero
    dsimp only at hone
    omega
  · intro id hid
    obtain ⟨hfresh,hposted⟩ := h.posted id hid
    refine ⟨hfresh,.inr ?_⟩
    rw [hclosed]
    unfold timerFire
    split
    · right
      split <;> simp
    · rename_i hcond
      rcases hposted with ⟨ha,-⟩ | hc | hready
      · cases hc : s.state.closed
        · right
          simpa [hc, ha] using hcond
        · exact .inl rfl
      · exact .inl hc
      · exact .inr hready

theorem posted_start {task id : Nat} :
    ({ s with timers := s.timers.start task } : TemporalSystem α).Posted id ↔ s.Posted id := by
  simp only [Posted, Timers.start, List.mem_map]
  constructor
  · rintro ⟨_,⟨u,hu,rfl⟩,hid⟩
    exact ⟨u,hu,by split at hid <;> exact hid⟩
  · rintro ⟨u,hu,hid⟩
    exact ⟨_,⟨u,hu,rfl⟩,by split <;> exact hid⟩

section

variable (h : TimerInv s)

include h

theorem timerInv_start : TimerInv { s with timers := s.timers.start task } := by
  refine ⟨?_,?_,?_,h.taken,h.taskless,h.arming,h.arms,?_,h.destroyed,h.released⟩
  · simpa [inTransit] using h.count
  · intro u hu
    obtain ⟨v,hv,rfl⟩ := List.mem_map.1 hu
    have := h.below v hv
    split <;> exact this
  · exact fun id hid => posted_start.2 (h.task id hid)
  · intro id hid
    simpa only [posted_start] using h.posted id hid

theorem timerInv_cancelWait (harming : s.state.timerArming = false) :
    TimerInv { s with
      state := s.state.cancelActiveWait.1
      cancelling := s.state.cancelActiveWait.2.1.toList ++ s.cancelling } := by
  have hout : s.state.cancelActiveWait.1.timerOutstanding = s.state.timerOutstanding := by
    simp [cancelActiveWait, harming]
  refine ⟨?_,h.below,?_,?_,fun _ => rfl,?_,?_,?_,h.destroyed,?_⟩
  · have hcount := h.count
    simp only [inTransit, harming] at hcount
    rw [hout]
    exact hcount
  · simp [cancelActiveWait]
  · intro id hid
    refine ⟨?_,by simp [cancelActiveWait]⟩
    rcases List.mem_append.1 hid with hid | hid
    · obtain ⟨u,hu,rfl⟩ := h.task id (by simpa [cancelActiveWait] using hid)
      exact h.below u hu
    · exact (h.taken id hid).1
  · simp [cancelActiveWait]
  · intro harms
    rw [h.arms harms] at harming
    cases harming
  · intro id hid
    have hnone := h.taskless (.inl (by simp [show s.point = .armPosted id from hid]))
    obtain ⟨hfresh,hposted⟩ := h.posted id hid
    refine ⟨by simpa [cancelActiveWait, hnone] using hfresh,.inr ?_⟩
    simpa [cancelActiveWait, closed, harming] using hposted
  · exact fun hd => hout.trans (h.released hd)

theorem timerInv_cancelTask (hmem : task ∈ s.cancelling)
    (hs : s.step (.cancelTask task) = some t) : TimerInv t := by
  simp only [step, hmem, if_true] at hs
  have hsub (id) (hid : id ∈ s.cancelling.erase task) : id ∈ s.cancelling :=
    List.mem_of_mem_erase hid
  split at hs
  · rename_i hq
    cases hs
    obtain ⟨hlen,hempty⟩ := Timers.remove_single h.length_le_one (Timers.mem_of_queued hq)
    have hcount := h.count
    -- the only task is the one that was taken, so it is not recorded any more
    have honly (id) (hid : s.Posted id) : id = task := by
      obtain ⟨u,hu,rfl⟩ := hid
      obtain ⟨v,hv,rfl⟩ := Timers.mem_of_queued hq
      obtain ⟨w,hw⟩ := List.length_eq_one_iff.1 hlen
      rw [hw, List.mem_singleton] at hu hv
      rw [hu, hv]
    have hnone : s.state.timerTask = none := by
      cases htask : s.state.timerTask with
      | none => rfl
      | some id =>
        have := honly id (h.task id htask)
        exact absurd (this ▸ htask) (h.taken task hmem).2
    refine ⟨?_,?_,?_,?_,fun _ => hnone,h.arming,h.arms,?_,h.destroyed,h.released⟩
    · simp only [inTransit, hempty, List.length_nil] at hcount ⊢
      omega
    · simp [hempty]
    · simp [hnone]
    · exact fun id hid => ⟨(h.taken id (hsub id hid)).1,by simp [hnone]⟩
    · intro id hid
      obtain ⟨hfresh,hposted⟩ := h.posted id hid
      refine ⟨fun hid' => hfresh (hsub id hid'),?_⟩
      rcases hposted with ⟨-,hlive⟩ | hrest
      · exact absurd hmem (honly id hlive ▸ hfresh)
      · exact .inr hrest
  · cases hs
    refine ⟨h.count,h.below,h.task,fun id hid => h.taken id (hsub id hid),h.taskless,h.arming,
      h.arms,?_,h.destroyed,h.released⟩
    intro id hid
    obtain ⟨hfresh,hposted⟩ := h.posted id hid
    exact ⟨fun hid' => hfresh (hsub id hid'),hposted⟩

theorem timerInv_clearing (hc : 0 < s.clearing) :
    TimerInv { s with state := s.state.clearOutstanding, clearing := s.clearing - 1 } := by
  have hcount := h.count
  have hflag := toNat_le s.state.timerOutstanding
  refine ⟨?_,h.below,h.task,h.taken,h.taskless,h.arming,h.arms,h.posted,h.destroyed,fun _ => rfl⟩
  simp only [inTransit, clearOutstanding, toNat_false] at hcount ⊢
  omega

theorem timerInv_destroyAdvance (hs : s.destroyAdvance = some t) : TimerInv t := by
  have hidle := h.destroyed fun hd => by simp [destroyAdvance, hd] at hs
  have hresumes : s.point.resumes = true := by simp [hidle]
  have harming := h.not_arming hresumes
  have hcount := h.count
  have hflag := toNat_le s.state.timerOutstanding
  simp only [inTransit, hidle, TemporalPoint.inTransit] at hcount
  unfold destroyAdvance at hs
  cases hd : s.destroy <;> simp only [hd, reduceCtorEq] at hs hcount
  case cancel =>
    simp only [cancelActiveWait, harming] at hs
    split at hs <;> obtain rfl := some.inj hs <;>
    · refine .of_resumes hresumes ?_ h.below (by simp) (fun id hid => ⟨(h.taken id hid).1,by simp⟩)
        (fun _ => rfl) rfl (fun _ => hidle) (by simp)
      simpa using hcount
  all_goals have hnone := h.taskless (.inr (by simp [hd]))
  case cancelTask task =>
    split at hs
    · rename_i hq
      cases hs
      obtain ⟨hlen,hempty⟩ := Timers.remove_single h.length_le_one (Timers.mem_of_queued hq)
      refine .of_resumes hresumes ?_ (by simp [hempty])
        (by simp [hnone]) h.taken (fun _ => hnone) harming (fun _ => hidle) (by simp)
      simp [hempty] at hcount ⊢
      omega
    · cases hs
      refine .of_resumes hresumes ?_ h.below h.task
        h.taken (fun _ => hnone) harming (fun _ => hidle) (by simp)
      simpa using hcount
  case clear =>
    cases hs
    refine .of_resumes hresumes ?_ h.below h.task
      h.taken (fun _ => hnone) harming (fun _ => hidle) (by simp)
    simp only [clearOutstanding, toNat_false, reduceCtorEq, if_true, if_false] at hcount ⊢
    omega
  case waiting =>
    split at hs
    · cases hs
    rename_i hquiet
    cases hs
    simp only [Bool.or_eq_true, not_or, Bool.not_eq_true] at hquiet
    refine .of_resumes hresumes ?_ h.below h.task
      h.taken (fun _ => hnone) hquiet.2 (fun _ => hidle) (fun _ => hquiet.1)
    simpa using hcount

theorem timerInv_arms {u : TemporalState α} {p : TemporalPoint α} (hp : p.arms = true)
    (ho : u.timerOutstanding = true) (ha : u.timerArming = true) (hu : u.timerTask = none)
    (hempty : s.timers.tasks = []) (halive : s.destroy = .alive) (hclearing : s.clearing = 0)
    : TimerInv { s with state := u, last := none, point := p } := by
  obtain ⟨hone,htaskless,hposted,-⟩ := arms_facts hp u.timerArming
  refine ⟨?_,h.below,by simp [hu],?_,fun _ => hu,fun _ => .inl hp,fun _ => ha,?_,?_,?_⟩
  · rw [inTransit, hone, hempty, ho]
    simp [hclearing, halive]
  · exact fun id hid => ⟨(h.taken id hid).1,by simp [hu]⟩
  all_goals simp [hposted, halive]

theorem timerInv_arm (hok : ¬ s.RearmsOverTimer .arm) (hs : s.step .arm = some t) : TimerInv t := by
  simp only [step, ite_none_right_eq_some, Bool.and_eq_true, free_iff] at hs
  obtain ⟨⟨⟨hidle,halive⟩,-⟩,hs⟩ := hs
  have hresumes : s.point.resumes = true := by simp [hidle]
  rcases s.state.waitArm_cases with hw | hw | ⟨hwaiter,hopen,hready,hw⟩
  · rw [hw] at hs
    cases hs
    exact h.resumes hresumes hresumes (by simp [halive]) ⟨rfl,rfl,rfl⟩
  · rw [hw] at hs
    cases hs
    exact h.resumes hresumes hresumes (by simp [halive]) ⟨rfl,rfl,rfl⟩
  · have hout : s.state.timerOutstanding = false := by
      by_contra ho
      exact hok ⟨rfl,hwaiter,hopen,hready,by simpa using ho⟩
    have hcount := h.count
    rw [hout, inTransit, (resumes_facts hresumes _).1] at hcount
    have hempty : s.timers.tasks = [] := by
      rw [← List.length_eq_zero_iff]
      simp only [toNat_false] at hcount
      omega
    have hnone := h.task_none hempty
    rw [hw] at hs
    have hclear (u : TemporalState α) (p : TemporalPoint α) (hu : u.timerTask = none)
        (hp : (u.timerOutstanding = true ∧ u.timerArming = true ∧ p.arms = true) ∨
          (u.timerOutstanding = false ∧ u.timerArming = false ∧ p.resumes = true)) :
        TimerInv { s with state := u, last := none, point := p } := by
      rcases hp with ⟨ho,ha,hp⟩ | ⟨ho,ha,hp⟩
      · exact timerInv_arms h hp ho ha hu hempty halive
          (by simp only [toNat_false] at hcount; omega)
      · refine .of_resumes hp ?_ h.below (by simp [hu]) ?_ (fun _ => hu) ha (by simp [halive])
          (by simp [halive])
        · simp only [ho]
          omega
        · exact fun id hid => ⟨(h.taken id hid).1,by simp [hu]⟩
    simp only [afterInner] at hs
    generalize hneed : (s.state.needTimer && !s.state.timerStale && !s.state.timerOutstanding) =
      need at hs
    split at hs <;> obtain rfl := some.inj hs <;>
    · refine hclear _ _ hnone ?_
      cases need <;> simp

theorem timerInv_armedInner {ok : Bool} (hs : s.step (.armedInner ok) = some t) : TimerInv t := by
  simp only [step] at hs
  split at hs
  · rename_i needTimer ticks hp
    have halive := h.alive (by simp [hp])
    split at hs <;> cases hs
    · cases needTimer with
      | true => exact h.armsOn (by simp [hp]) rfl ⟨rfl,rfl,rfl⟩
      | false =>
        exact h.resumes (by simp [hp]) rfl
          (by simp) ⟨rfl,rfl,rfl⟩
    · refine h.fails ?_ (by simp [hp])
      cases needTimer <;> simp [hp]
  · cases hs

theorem timerInv_post {accepted : Bool} (hs : s.step (.post accepted) = some t) : TimerInv t := by
  simp only [step] at hs
  split at hs
  · rename_i ticks hp
    have harms : s.point.arms = true := by simp [hp]
    have halive := h.alive (by simp [hp])
    have hcount := h.count
    have hflag := toNat_le s.state.timerOutstanding
    simp only [inTransit, hp, TemporalPoint.inTransit] at hcount
    have hempty : s.timers.tasks = [] := by
      rw [← List.length_eq_zero_iff]
      omega
    have hnone := h.task_none hempty
    split at hs
    · cases hs
      exact h.fails (.inl harms) (by simp [hp])
    · split at hs <;> cases hs
      · refine ⟨?_,?_,?_,?_,fun _ => hnone,?_,?_,?_,?_,?_⟩
        · simp only [inTransit, TemporalPoint.inTransit, Timers.length_post]
          omega
        · simp [Timers.post, hempty]
        · simp [hnone]
        · exact fun id hid => ⟨Nat.lt_succ_of_lt (h.taken id hid).1,by simp [hnone]⟩
        · exact fun _ => .inr (.inl ⟨_,rfl⟩)
        · simp
        · rintro id ⟨⟩
          refine ⟨fun hid => Nat.lt_irrefl _ (h.taken _ hid).1,.inl ⟨h.arms harms,?_⟩⟩
          exact ⟨{ id := s.timers.nextId, due := s.now+ticks },by simp [Timers.post],rfl⟩
        · simp [halive]
        · simp [halive]
      · exact h.armsOn harms rfl ⟨rfl,rfl,rfl⟩
  · cases hs

theorem timerInv_step (hok : ¬ s.RearmsOverTimer a ∧ ¬ s.CancelsWhileArming a)
    (hs : s.step a = some t) : TimerInv t := by
  cases a with
  | resume scheduler =>
    simp only [step, ite_none_right_eq_some, free_iff] at hs
    obtain ⟨⟨hidle,halive⟩,hs⟩ := hs
    have hresumes : s.point.resumes = true := by simp [hidle]
    split at hs <;> cases hs
    · exact h.resumes hresumes hresumes (by simp [halive])
        (s.state.sameTimer_resumeEntry scheduler)
    · exact h.resumes hresumes rfl (by simp [halive]) (s.state.sameTimer_resumeEntry scheduler)
  | answer answer moved =>
    simp only [step] at hs
    split at hs
    · rename_i cause count expired restart hp
      cases hs
      exact h.goOn (by simp [hp]) (by simp [hp])
        (s.state.sameTimer_resumeAnswer cause count expired restart moved answer)
    · cases hs
  | arm => exact timerInv_arm h hok.1 hs
  | armedInner ok => exact timerInv_armedInner h hs
  | post accepted => exact timerInv_post h hs
  | advance => exact timerInv_advance h hs
  | tick =>
    cases hs
    exact ⟨h.count,h.below,h.task,h.taken,h.taskless,h.arming,h.arms,h.posted,
      h.destroyed,h.released⟩
  | start task =>
    simp only [step, ite_none_right_eq_some] at hs
    obtain rfl := some.inj hs.2
    exact timerInv_start h
  | fire task =>
    simp only [step, ite_none_right_eq_some] at hs
    obtain rfl := some.inj hs.2
    exact timerInv_fire h hs.1
  | cancel =>
    cases hs
    refine ⟨h.count,h.below,h.task,h.taken,h.taskless,h.arming,h.arms,fun id hid => ?_,
      h.destroyed,h.released⟩
    exact ⟨(h.posted id hid).1,.inr (.inl (by simp [closed]))⟩
  | cancelWait =>
    cases hs
    refine timerInv_cancelWait h ?_
    by_contra ha
    exact hok.2 ⟨rfl,by simpa using ha⟩
  | cancelTask task =>
    refine timerInv_cancelTask h ?_ hs
    by_contra hmem
    simp [step, hmem] at hs
  | clear =>
    simp only [step, ite_none_right_eq_some] at hs
    obtain rfl := some.inj hs.2
    exact timerInv_clearing h hs.1
  | destroy =>
    simp only [step, ite_none_right_eq_some, free_iff] at hs
    obtain ⟨⟨hidle,halive⟩,hs⟩ := hs
    cases hs
    have hcount := h.count
    have harming := h.not_arming (by simp [hidle])
    simp only [inTransit, hidle, halive, TemporalPoint.inTransit] at hcount
    refine .of_resumes (by simp [hidle]) ?_ h.below h.task h.taken
      (by simp) harming (fun _ => hidle) (by simp)
    simpa using hcount
  | destroyAdvance => exact timerInv_destroyAdvance h hs

end

abbrev TimerReach (s : TemporalSystem α) : Prop :=
  Transition.Reach step Fresh (fun s a => ¬ s.RearmsOverTimer a ∧ ¬ s.CancelsWhileArming a) s

theorem timerInv_reach (h : TimerReach s) : TimerInv s := by
  refine h.invariant ?_ fun _ _ _ hi hok hs => timerInv_step hi hok hs
  rintro _ ⟨kind,ticks,rfl⟩
  exact timerInv_create kind ticks

/-- In every such run at most one timer task is out, the flag is set while one is, a set flag
stands for a posted task or for one that a call in progress is about to post or has just cancelled,
and an adapter that has been released has no task out. -/
theorem timer_outstanding_tracks_task (h : TimerReach s) :
    s.timers.tasks.length ≤ 1 ∧
    (s.timers.tasks ≠ [] → s.state.timerOutstanding = true) ∧
    (s.state.timerOutstanding = true → s.timers.tasks ≠ [] ∨ s.inTransit = 1) ∧
    (s.inTransit = 0 → (s.state.timerOutstanding = true ↔ s.timers.tasks ≠ [])) ∧
    (s.destroy = .released → s.timers.tasks = []) := by
  have hinv := timerInv_reach h
  have hcount := hinv.count
  have hreleased := hinv.released
  have hpos : s.timers.tasks ≠ [] ↔ 0 < s.timers.tasks.length := List.length_pos_iff.symm
  have hempty : s.timers.tasks = [] ↔ s.timers.tasks.length = 0 := List.length_eq_zero_iff.symm
  rw [hpos, hempty]
  cases ho : s.state.timerOutstanding <;>
    simp only [ho, toNat_false, Bool.toNat_true] at hcount
  · exact ⟨by omega,by omega,by simp,fun _ => ⟨by simp,by omega⟩,fun _ => by omega⟩
  · refine ⟨by omega,by simp,by omega,fun _ => ⟨by omega,by simp⟩,fun hd => ?_⟩
    rw [hreleased hd] at ho
    cases ho

def armsOnce : List (TemporalAction Nat) :=
  [.resume 0, .advance, .answer .wait true, .advance, .arm, .advance, .armedInner true,
    .post true, .advance]

/-- `temporal_destroy` up to the end of its wait, with a recorded task that is still queued. -/
def destroysQueued : List (TemporalAction Nat) :=
  [.destroy, .destroyAdvance, .destroyAdvance, .destroyAdvance, .destroyAdvance]

/-- Two waits, the first of which is cancelled with its task before the second is armed. -/
def armsAgain : List (TemporalAction Nat) :=
  armsOnce ++ [.cancelWait, .cancelTask 1, .clear] ++ armsOnce

theorem armsAgain_tracks_task :
    (∃ s, exec step (create .timeout 5 : TemporalSystem Nat) armsAgain = some s ∧
      (s.timers.tasks.length = 1 ∧ s.inTransit = 0) ∧
      (s.state.timerOutstanding = true ↔ s.timers.tasks ≠ [])) ∧
    ∃ s, exec step (create .timeout 5 : TemporalSystem Nat)
        (armsAgain ++ destroysQueued) = some s ∧
      s.destroy = .released ∧ s.timers.tasks = [] := by
  have hstart : TimerReach (create .timeout 5 : TemporalSystem Nat) := .start ⟨.timeout,5,rfl⟩
  constructor
  · exact exec_shows_and (by decide) fun s hs hq =>
      (timer_outstanding_tracks_task (hstart.exec_admits (by decide) hs)).2.2.2.1 hq.2
  · exact exec_shows_and (by decide) fun s hs hq =>
      (timer_outstanding_tracks_task (hstart.exec_admits (by decide) hs)).2.2.2.2 hq

/-- A wake after which the inner publisher still waits: the adapter is resumed and armed again. -/
def spuriousWake : List (TemporalAction Nat) :=
  [.resume 0, .advance, .answer .wait true, .advance, .arm, .advance, .armedInner true]

/-- One spurious wake leaves the flag down with the first task posted, a second one posts another
task beside it, and the adapter is then released with a task out.  The same comes of a wait that is
cancelled while it is being armed. -/
theorem timer_task_untracked :
    (∃ s, exec step (create .timeout 5 : TemporalSystem Nat)
        (armsOnce ++ spuriousWake) = some s ∧
      s.inTransit = 0 ∧ s.timers.tasks ≠ [] ∧ s.state.timerOutstanding = false) ∧
    (∃ s, exec step (create .timeout 5 : TemporalSystem Nat)
        (armsOnce ++ spuriousWake ++ spuriousWake ++ [.post true, .advance]) = some s ∧
      s.timers.tasks.length = 2) ∧
    (∃ s, exec step (create .timeout 5 : TemporalSystem Nat)
        (armsOnce ++ spuriousWake ++ spuriousWake ++ [.post true, .advance] ++ destroysQueued) =
          some s ∧
      s.destroy = .released ∧ s.timers.tasks ≠ []) ∧
    (∃ s, exec step (create .timeout 0 : TemporalSystem Nat)
        [.resume 0, .advance, .answer .wait true, .advance, .arm, .advance, .cancelWait,
          .armedInner true, .post true, .advance, .start 1, .destroy, .destroyAdvance,
          .destroyAdvance, .destroyAdvance] = some s ∧
      s.destroy = .released ∧ s.timers.tasks ≠ []) :=
  ⟨⟨_,rfl,by decide⟩,⟨_,rfl,by decide⟩,⟨_,rfl,by decide⟩,⟨_,rfl,by decide⟩⟩

end TemporalSystem

end Salts.CFlow
