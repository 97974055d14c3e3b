import Mathlib.Data.List.Basic
import Salts.CFlowStep
import Salts.Transition

/-!
The temporal adapters of `cflow/src/temporal.c`, and the timer tasks that one owner has posted to a
scheduler.  A task is held until its callback has run or its cancellation has won.  A definition is
one region under the adapter's lock, or the code of the resuming thread between two of them.
-/

namespace Salts.CFlow

/-- One posted task: its id, the tick it is due at, and whether a worker has taken it. -/
structure TimerTask where
  id : Nat
  due : Nat
  running : Bool := false

structure Timers where
  tasks : List TimerTask := []
  nextId : Nat := 1

namespace Timers

def post (q : Timers) (now ticks : Nat) : Timers :=
  { tasks := q.tasks ++ [{ id := q.nextId, due := now + ticks }], nextId := q.nextId + 1 }

def queued (q : Timers) (id : Nat) : Bool :=
  q.tasks.any fun t => t.id == id && !t.running

def ripe (q : Timers) (id now : Nat) : Bool :=
  q.tasks.any fun t => t.id == id && !t.running && decide (t.due ≤ now)

def runs (q : Timers) (id : Nat) : Bool :=
  q.tasks.any fun t => t.id == id && t.running

def start (q : Timers) (id : Nat) : Timers :=
  { q with tasks := q.tasks.map fun t => if t.id = id then { t with running := true } else t }

def remove (q : Timers) (id : Nat) : Timers :=
  { q with tasks := q.tasks.filter fun t => t.id != id }

variable {q : Timers} {id now ticks : Nat}

@[simp] theorem length_post : (q.post now ticks).tasks.length = q.tasks.length + 1 := by
  simp [post]

@[simp] theorem length_start : (q.start id).tasks.length = q.tasks.length := by
  simp [start]

theorem mem_of_queued (h : q.queued id = true) : ∃ t ∈ q.tasks, t.id = id := by
  simp only [queued, List.any_eq_true, Bool.and_eq_true, beq_iff_eq] at h
  obtain ⟨t,ht,hid,-⟩ := h
  exact ⟨t,ht,hid⟩

theorem mem_of_runs (h : q.runs id = true) : ∃ t ∈ q.tasks, t.id = id := by
  simp only [runs, List.any_eq_true, Bool.and_eq_true, beq_iff_eq] at h
  obtain ⟨t,ht,hid,-⟩ := h
  exact ⟨t,ht,hid⟩

theorem remove_single (hone : q.tasks.length ≤ 1) (h : ∃ t ∈ q.tasks, t.id = id) :
    q.tasks.length = 1 ∧ (q.remove id).tasks = [] := by
  obtain ⟨t,ht,rfl⟩ := h
  match hq : q.tasks, hone with
  | [u], _ =>
    obtain rfl : t = u := by simpa [hq] using ht
    simp [remove, hq]
  | [], _ => simp [hq] at ht

end Timers

/-! ### The adapters -/

inductive TemporalKind where
  | delay
  | debounce
  | timeout
  deriving DecidableEq

inductive ReadyCause where
  | none
  | inner
  | timer
  deriving DecidableEq

def temporalResumeQuantum : Nat := 64

def temporalTimeoutError : String := "temporal source timed out"

/-- `temporal_state` without the inner publisher, whose answers are inputs.  Of a waker only its
presence matters here, of the scheduler its identity. -/
structure TemporalState (α : Type) where
  kind : TemporalKind
  durationTicks : Nat
  pending : Option α := none
  scheduler : Option Nat := none
  timerTask : Option Nat := none
  innerWaitable : Bool := false
  waiter : Bool := false
  terminalWaker : Bool := false
  readyCause : ReadyCause := .none
  timerArming : Bool := false
  timerOutstanding : Bool := false
  timerStale : Bool := false
  innerArmed : Bool := false
  needInner : Bool := false
  needTimer : Bool := false
  yielding : Bool := false
  innerDone : Bool := false
  done : Bool := false
  cancelled : Bool := false
  error : Option String := none

inductive TemporalFinish (α : Type) where
  | wait (needInner needTimer : Bool)
  | ret (step : Step α)
  | markDone (step : Step α)
  | markError (message : Option String) (step : Step α)

inductive TemporalNext (α : Type) where
  | call (cause : ReadyCause) (count : Nat) (expired restart : Bool)
  | restart (finish : TemporalFinish α)
  | finish (finish : TemporalFinish α)

/-- The locked start of `temporal_wait_arm`: it refuses, wakes at once, or goes on to arm. -/
inductive ArmStart where
  | refused
  | ready
  | arming (needInner needTimer : Bool) (ticks : Nat)

namespace TemporalState

variable {α : Type}

def closed (s : TemporalState α) : Bool := s.cancelled || s.done || s.error.isSome

def timerFire (s : TemporalState α) : TemporalState α × Bool :=
  let t := { s with timerStale := false, timerOutstanding := false, timerTask := none }
  if !s.closed && (s.timerArming || s.needTimer) && s.readyCause == .none then
    ({ t with
        timerArming := false
        readyCause := if s.timerStale then .inner else .timer
        waiter := false }, s.waiter)
  else (t, false)

/-- The locked end of `temporal_cancel_scheduled` when the scheduler has cancelled the task. -/
def clearOutstanding (s : TemporalState α) : TemporalState α :=
  { s with timerOutstanding := false }

/-- The locked part of `temporal_cancel_active_wait`: the state, the task to cancel, and whether
the inner waitable is to be cancelled. -/
def cancelActiveWait (s : TemporalState α) : TemporalState α × Option Nat × Bool :=
  ({ s with
      timerTask := none
      timerOutstanding := if s.timerTask.isNone && s.timerArming then false else s.timerOutstanding
      timerArming := false
      innerArmed := false
      waiter := false }, s.timerTask, s.innerArmed)

def restartTimer (s : TemporalState α) : TemporalState α × Option Nat :=
  ({ s with timerTask := none }, s.timerTask)

/-- The second locked part of `temporal_restart_timer`, when the cancellation lost the race. -/
def restartLost (s : TemporalState α) : TemporalState α :=
  { s with timerStale := s.timerOutstanding || s.timerStale }

def waitArm (s : TemporalState α) : TemporalState α × ArmStart :=
  if s.waiter then (s, .refused)
  else if s.closed || s.readyCause != .none then (s, .ready)
  else
    let needTimer := s.needTimer && !s.timerStale && !s.timerOutstanding
    ({ s with waiter := true, timerArming := needTimer, timerOutstanding := needTimer },
      .arming s.needInner needTimer (if s.yielding then 0 else s.durationTicks))

theorem waitArm_cases (s : TemporalState α) :
    s.waitArm = (s, .refused) ∨ s.waitArm = (s, .ready) ∨
      (s.waiter = false ∧ s.closed = false ∧ s.readyCause = .none ∧
        s.waitArm =
          ({ s with
              waiter := true
              timerArming := s.needTimer && !s.timerStale && !s.timerOutstanding
              timerOutstanding := s.needTimer && !s.timerStale && !s.timerOutstanding },
            .arming s.needInner (s.needTimer && !s.timerStale && !s.timerOutstanding)
              (if s.yielding then 0 else s.durationTicks))) := by
  unfold waitArm
  split
  · simp
  · split <;> simp_all

/-- The locked part of `temporal_wait_arm` behind a post that was accepted; the flag tells whether
the task is cancelled again. -/
def armPosted (s : TemporalState α) (task : Nat) : TemporalState α × Bool :=
  if s.readyCause != .none || s.closed then ({ s with timerArming := false }, true)
  else ({ s with timerTask := some task, timerArming := false }, false)

/-- The locked part of `temporal_wait_arm` behind a post that was rejected. -/
def armRejected (s : TemporalState α) : TemporalState α :=
  { s with timerOutstanding := false, timerArming := false }

/-- The locked part of `temporal_take_ready`: the state, the cause, and whether the inner waitable
is to be cancelled. -/
def takeReady (s : TemporalState α) : TemporalState α × ReadyCause × Bool :=
  ({ s with
      readyCause := .none
      innerArmed := false
      waiter := false
      needInner := false
      needTimer := false }, s.readyCause, s.innerArmed)

/-- The locked start of `temporal_resume`; a step when it returns at once. -/
def resumeEntry (s : TemporalState α) (scheduler : Nat) : TemporalState α × Option (Step α) :=
  if s.scheduler.any (· != scheduler) then
    (s, some (.error (some "temporal source scheduler changed")))
  else
    let t := { s with scheduler := some scheduler }
    match s.error with
    | some message => (t, some (.error (some message)))
    | none => if s.done || s.cancelled then (t, some .done) else (t, none)

/-- `delay_resume`, `debounce_resume` and `timeout_resume` up to their first call of the inner
publisher. -/
def resumeStart (s : TemporalState α) (cause : ReadyCause) : TemporalState α × TemporalNext α :=
  match s.kind with
  | .delay =>
    match s.pending with
    | some v =>
      if cause != .timer then (s, .finish (.wait false true))
      else
        ({ s with pending := none },
          .finish (if s.innerDone then .markDone (.valueAndDone v) else .ret (.value v)))
    | none => (s, .call cause 0 false false)
  | .debounce =>
    ({ s with yielding := s.yielding && cause != .timer }, .call cause 0 (cause == .timer) false)
  | .timeout => (s, .call cause 0 false false)

def delayAnswer (s : TemporalState α) : Step α → TemporalState α × TemporalNext α
  | .value v =>
    ({ s with pending := some v, innerDone := false }, .finish (.wait false true))
  | .valueAndDone v =>
    ({ s with pending := some v, innerDone := true }, .finish (.wait false true))
  | .wait => ({ s with innerWaitable := true }, .finish (.wait true false))
  | .done => (s, .finish (.markDone .done))
  | .error message => (s, .finish (.markError message (.error message)))

/-- One round of the loop of `debounce_resume` behind the answer of the inner publisher.  `moved`
tells whether the value could be moved into the pending slot. -/
def debounceAnswer (s : TemporalState α) (cause : ReadyCause) (count : Nat)
    (expired restart moved : Bool) : Step α → TemporalState α × TemporalNext α
  | .value v =>
    if moved then
      let t := { s with pending := some v }
      if count + 1 < temporalResumeQuantum then (t, .call cause (count + 1) false true)
      else ({ t with yielding := true }, .finish (.wait false true))
    else
      ({ s with pending := none }, .finish (.markError (some "debounce value move failed")
        (.error (some "debounce value move failed"))))
  | .valueAndDone v =>
    if moved then
      ({ s with pending := none, innerDone := true }, .finish (.markDone (.valueAndDone v)))
    else
      ({ s with pending := none }, .finish (.markError (some "debounce value move failed")
        (.error (some "debounce value move failed"))))
  | .wait =>
    let t := { s with innerWaitable := true }
    let next (u : TemporalState α) (f : TemporalFinish α) :
        TemporalState α × TemporalNext α :=
      (u, if restart then .restart f else .finish f)
    match s.pending with
    | some v =>
      if expired then next { t with pending := none } (.ret (.value v))
      else next t (.wait true true)
    | none => next t (.wait true false)
  | .done =>
    match s.pending with
    | some v => ({ s with pending := none }, .finish (.markDone (.valueAndDone v)))
    | none => (s, .finish (.markDone .done))
  | .error message =>
    ({ s with pending := none }, .finish (.markError message (.error message)))

def timeoutAnswer (s : TemporalState α) (cause : ReadyCause) :
    Step α → TemporalState α × TemporalNext α
  | .value v => (s, .restart (.ret (.value v)))
  | .valueAndDone v => (s, .restart (.markDone (.valueAndDone v)))
  | .wait =>
    if cause == .timer then
      (s, .finish (.markError (some temporalTimeoutError) (.error (some temporalTimeoutError))))
    else ({ s with innerWaitable := true }, .finish (.wait true true))
  | .done => (s, .restart (.markDone .done))
  | .error message => (s, .restart (.markError message (.error message)))

def resumeAnswer (s : TemporalState α) (cause : ReadyCause) (count : Nat)
    (expired restart moved : Bool) (answer : Step α) : TemporalState α × TemporalNext α :=
  match s.kind with
  | .delay => s.delayAnswer answer
  | .debounce => s.debounceAnswer cause count expired restart moved answer
  | .timeout => s.timeoutAnswer cause answer

/-- The last locked part of a resume function (`temporal_wait`, `temporal_mark_done`,
`temporal_mark_error`) and the step it returns. -/
def resumeFinish (s : TemporalState α) : TemporalFinish α → TemporalState α × Step α
  | .wait needInner needTimer => ({ s with needInner := needInner, needTimer := needTimer }, .wait)
  | .ret step => (s, step)
  | .markDone step => ({ s with done := true, terminalWaker := false }, step)
  | .markError message step =>
    ({ s with
        error := some (message.getD "temporal source error")
        terminalWaker := false }, step)

structure SameTimer (s t : TemporalState α) : Prop where
  outstanding : t.timerOutstanding = s.timerOutstanding
  task : t.timerTask = s.timerTask
  arming : t.timerArming = s.timerArming

section

variable (s : TemporalState α)

theorem sameTimer_resumeEntry (scheduler : Nat) : SameTimer s (s.resumeEntry scheduler).1 := by
  unfold resumeEntry
  repeat' split
  all_goals exact ⟨rfl,rfl,rfl⟩

theorem sameTimer_resumeStart (cause : ReadyCause) : SameTimer s (s.resumeStart cause).1 := by
  unfold resumeStart
  repeat' split
  all_goals exact ⟨rfl,rfl,rfl⟩

theorem sameTimer_resumeAnswer (cause : ReadyCause) (count : Nat) (expired restart moved : Bool)
    (answer : Step α) : SameTimer s (s.resumeAnswer cause count expired restart moved answer).1:= by
  unfold resumeAnswer delayAnswer debounceAnswer timeoutAnswer
  repeat' split
  all_goals exact ⟨rfl,rfl,rfl⟩

theorem sameTimer_resumeFinish (f : TemporalFinish α) : SameTimer s (s.resumeFinish f).1 := by
  cases f <;> exact ⟨rfl,rfl,rfl⟩

end

end TemporalState

/-! ### Runs -/

inductive TemporalPoint (α : Type) where
  | idle
  | take
  | inner (cause : ReadyCause) (count : Nat) (expired restart : Bool)
  | restart (finish : TemporalFinish α)
  | restartCancel (task : Nat) (finish : TemporalFinish α)
  | restartClear (finish : TemporalFinish α)
  | restartLost (finish : TemporalFinish α)
  | finish (finish : TemporalFinish α)
  | armInner (needTimer : Bool) (ticks : Nat)
  | armCall (needTimer : Bool) (ticks : Nat)
  | armPost (ticks : Nat)
  | armRejected
  | armPosted (task : Nat)
  | armCancel (task : Nat)
  | armClear
  | fail
  | failCancel (task : Nat)
  | failClear

/-- Where `temporal_destroy` stands. -/
inductive DestroyPoint where
  | alive
  | cancel
  | cancelTask (task : Nat)
  | clear
  | waiting
  | released
  deriving DecidableEq

/-- An adapter with its posted tasks and the calls in progress.  `cancelling` are the tasks taken by
calls of `temporal_cancel_active_wait` on other threads, `clearing` counts those of them whose task
the scheduler has cancelled and that still have to clear the flag. -/
structure TemporalSystem (α : Type) where
  state : TemporalState α
  timers : Timers := {}
  now : Nat := 0
  point : TemporalPoint α := .idle
  last : Option (Step α) := none
  cancelling : List Nat := []
  clearing : Nat := 0
  destroy : DestroyPoint := .alive

inductive TemporalAction (α : Type) where
  | resume (scheduler : Nat)
  | answer (step : Step α) (moved : Bool)
  | arm
  | armedInner (ok : Bool)
  | post (accepted : Bool)
  | advance
  | tick
  | start (task : Nat)
  | fire (task : Nat)
  | cancel
  | cancelWait
  | cancelTask (task : Nat)
  | clear
  | destroy
  | destroyAdvance
  deriving DecidableEq

namespace TemporalSystem

variable {α : Type}

def create (kind : TemporalKind) (durationTicks : Nat) : TemporalSystem α :=
  { state := { kind := kind, durationTicks := durationTicks } }

/-- No call of the owner is in progress and the adapter is not being destroyed. -/
def free (s : TemporalSystem α) : Bool := (s.point matches .idle) && s.destroy == .alive

theorem free_iff {s : TemporalSystem α} : s.free = true ↔ s.point = .idle ∧ s.destroy = .alive := by
  unfold free
  cases s.point <;> simp

def waits (s : TemporalSystem α) : Bool := s.last matches some .wait

def goOn (s : TemporalSystem α) (r : TemporalState α × TemporalNext α) : TemporalSystem α :=
  { s with
    state := r.1
    point :=
      match r.2 with
      | .call cause count expired restart => .inner cause count expired restart
      | .restart f => .restart f
      | .finish f => .finish f }

/-- `cflow_scheduler_cancel`, with what follows when it wins and when it loses. -/
def cancelPosted (s : TemporalSystem α) (task : Nat) (won lost : TemporalPoint α) :
    TemporalSystem α :=
  if s.timers.queued task then { s with timers := s.timers.remove task, point := won }
  else { s with point := lost }

def afterInner (s : TemporalSystem α) (needTimer : Bool) (ticks : Nat) : TemporalSystem α :=
  { s with point := if needTimer then .armPost ticks else .idle }

/-- One step of the resuming or arming thread that calls nothing outside. -/
def advance (s : TemporalSystem α) : Option (TemporalSystem α) :=
  match s.point with
  | .take =>
    let r := s.state.takeReady
    some (s.goOn (r.1.resumeStart r.2.1))
  | .restart f =>
    let r := s.state.restartTimer
    match r.2 with
    | some task => some { s with state := r.1, point := .restartCancel task f }
    | none => some { s with state := r.1, point := .finish f }
  | .restartCancel task f => some (s.cancelPosted task (.restartClear f) (.restartLost f))
  | .restartClear f => some { s with state := s.state.clearOutstanding, point := .finish f }
  | .restartLost f => some { s with state := s.state.restartLost, point := .finish f }
  | .finish f =>
    let r := s.state.resumeFinish f
    some { s with state := r.1, point := .idle, last := some r.2 }
  | .armInner needTimer ticks =>
    some { s with
      state := { s.state with innerArmed := true }, point := .armCall needTimer ticks }
  | .armRejected => some { s with state := s.state.armRejected, point := .fail }
  | .armPosted task =>
    let r := s.state.armPosted task
    some { s with state := r.1, point := if r.2 then .armCancel task else .idle }
  | .armCancel task => some (s.cancelPosted task .armClear .idle)
  | .armClear => some { s with state := s.state.clearOutstanding, point := .idle }
  | .fail =>
    let r := s.state.cancelActiveWait
    match r.2.1 with
    | some task => some { s with state := r.1, point := .failCancel task }
    | none => some { s with state := r.1, point := .idle }
  | .failCancel task => some (s.cancelPosted task .failClear .idle)
  | .failClear => some { s with state := s.state.clearOutstanding, point := .idle }
  | _ => none

/-- One step of `temporal_destroy`; `released` is where it stops waiting. -/
def destroyAdvance (s : TemporalSystem α) : Option (TemporalSystem α) :=
  match s.destroy with
  | .cancel =>
    let r := s.state.cancelActiveWait
    match r.2.1 with
    | some task => some { s with state := r.1, destroy := .cancelTask task }
    | none => some { s with state := r.1, destroy := .waiting }
  | .cancelTask task =>
    if s.timers.queued task then
      some { s with timers := s.timers.remove task, destroy := .clear }
    else some { s with destroy := .waiting }
  | .clear => some { s with state := s.state.clearOutstanding, destroy := .waiting }
  | .waiting =>
    if s.state.timerOutstanding || s.state.timerArming then none
    else some { s with destroy := .released }
  | _ => none

/-- The actions.  The owner arms a WAIT once and destroys the adapter when no call is in
progress. -/
def step (s : TemporalSystem α) : TemporalAction α → Option (TemporalSystem α)
  | .resume scheduler =>
    if s.free then
      let r := s.state.resumeEntry scheduler
      match r.2 with
      | some step => some { s with state := r.1, last := some step }
      | none => some { s with state := r.1, point := .take, last := none }
    else none
  | .answer step moved =>
    match s.point with
    | .inner cause count expired restart =>
      some (s.goOn (s.state.resumeAnswer cause count expired restart moved step))
    | _ => none
  | .arm =>
    if s.free && s.waits then
      let r := s.state.waitArm
      match r.2 with
      | .arming needInner needTimer ticks =>
        let t := { s with state := r.1, last := none }
        if needInner then some { t with point := .armInner needTimer ticks }
        else some (t.afterInner needTimer ticks)
      | _ => some { s with state := r.1, last := none }
    else none
  | .armedInner ok =>
    match s.point with
    | .armCall needTimer ticks =>
      if ok then some (s.afterInner needTimer ticks) else some { s with point := .fail }
    | _ => none
  | .post accepted =>
    match s.point with
    | .armPost ticks =>
      if s.state.scheduler.isNone then some { s with point := .fail }
      else if accepted then
        some { s with
          timers := s.timers.post s.now ticks
          point := .armPosted s.timers.nextId }
      else some { s with point := .armRejected }
    | _ => none
  | .advance => s.advance
  | .tick => some { s with now := s.now + 1 }
  | .start task =>
    if s.timers.ripe task s.now then some { s with timers := s.timers.start task } else none
  | .fire task =>
    if s.timers.runs task then
      some { s with timers := s.timers.remove task, state := s.state.timerFire.1 }
    else none
  | .cancel => some { s with state := { s.state with cancelled := true } }
  | .cancelWait =>
    let r := s.state.cancelActiveWait
    some { s with state := r.1, cancelling := r.2.1.toList ++ s.cancelling }
  | .cancelTask task =>
    if task ∈ s.cancelling then
      let t := { s with cancelling := s.cancelling.erase task }
      if s.timers.queued task then
        some { t with timers := s.timers.remove task, clearing := s.clearing + 1 }
      else some t
    else none
  | .clear =>
    if 0 < s.clearing then
      some { s with state := s.state.clearOutstanding, clearing := s.clearing - 1 }
    else none
  | .destroy =>
    if s.free then
      some { s with state := { s.state with cancelled := true }, destroy := .cancel }
    else none
  | .destroyAdvance => s.destroyAdvance

def Fresh (s : TemporalSystem α) : Prop := ∃ kind ticks, s = create kind ticks

/-- `temporal_wait_arm` gets past its first checks while the flag says that a timer task is out. -/
def RearmsOverTimer (s : TemporalSystem α) (a : TemporalAction α) : Prop :=
  a = .arm ∧ s.state.waiter = false ∧ s.state.closed = false ∧ s.state.readyCause = .none ∧
    s.state.timerOutstanding = true

/-- `temporal_cancel_active_wait` runs on another thread while an arm is about to post a timer. -/
def CancelsWhileArming (s : TemporalSystem α) (a : TemporalAction α) : Prop :=
  a = .cancelWait ∧ s.state.timerArming = true

instance [DecidableEq α] (s : TemporalSystem α) (a : TemporalAction α) :
    Decidable (s.RearmsOverTimer a) := by unfold RearmsOverTimer; infer_instance

instance [DecidableEq α] (s : TemporalSystem α) (a : TemporalAction α) :
    Decidable (s.CancelsWhileArming a) := by unfold CancelsWhileArming; infer_instance

end TemporalSystem

end Salts.CFlow
