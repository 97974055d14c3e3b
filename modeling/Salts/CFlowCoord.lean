import Mathlib.Data.Fintype.Basic
import Salts.CFlowStep
import Salts.Transition

/-!
The relation coordinator of `cflow/src/coord.c`.  `coord_resume` runs on one thread while the wakes
of the children come from others, so the loops are cut where a wake can be seen: at every
iteration, and around every call of a child's `resume`.
-/

namespace Salts.CFlow

inductive CoordMode where
  | all
  | allDone
  | any
  | latest
  | sequence
  deriving DecidableEq

/-- `cflow_coord_event`; a `childIndex` of `SIZE_MAX` is the barrier of ALL and ALL_DONE. -/
structure CoordEvent where
  childIndex : Nat
  generation : Nat
  deriving DecidableEq

/-- `coord_child` without its machine, whose answers are the inputs of the model. -/
structure CoordChild (α : Type) where
  value : Option α := none
  pending : Option α := none
  hasValue : Bool := false
  done : Bool := false
  waiting : Bool := false
  armed : Bool := false

structure CoordState (α : Type) (n : Nat) where
  mode : CoordMode
  children : Fin n → CoordChild α
  cursor : Nat := 0
  sequenceIndex : Nat := 0
  generation : Nat := 0
  emittedAll : Bool := false
  cancelled : Bool := false
  error : Option String := none
  waiter : Bool := false

namespace CoordState

variable {α : Type} {n : Nat}

def setChild (s : CoordState α n) (i : Fin n) (c : CoordChild α) : CoordState α n :=
  { s with children := Function.update s.children i c }

section

variable (s : CoordState α n) (i : Fin n) (c : CoordChild α)

@[simp] theorem setChild_mode : (s.setChild i c).mode = s.mode := rfl

@[simp] theorem setChild_cancelled : (s.setChild i c).cancelled = s.cancelled := rfl

@[simp] theorem setChild_sequenceIndex : (s.setChild i c).sequenceIndex = s.sequenceIndex := rfl

@[simp] theorem setChild_children : (s.setChild i c).children = Function.update s.children i c:= rfl

end

def allHaveValue (s : CoordState α n) : Prop := ∀ i, (s.children i).hasValue = true

def allDone (s : CoordState α n) : Prop := ∀ i, (s.children i).done = true

instance (s : CoordState α n) : Decidable s.allHaveValue :=
  inferInstanceAs (Decidable (∀ i, (s.children i).hasValue = true))

instance (s : CoordState α n) : Decidable s.allDone :=
  inferInstanceAs (Decidable (∀ i, (s.children i).done = true))

def childRunnable (s : CoordState α n) (i : Fin n) : Bool :=
  let c := s.children i
  !(c.done || c.waiting) &&
    match s.mode with
    | .all => !c.hasValue
    | .allDone => true
    | .any => true
    | .latest => if s.allHaveValue then true else !c.hasValue
    | .sequence => i.val == s.sequenceIndex && !c.hasValue

/-- `any_runnable`.  A wake only turns `waiting` off, so a child that can be resumed stays one: a scan
that finds none answers as of its start, a scan that finds one as of its end. -/
def anyRunnable (s : CoordState α n) : Prop := ∃ i, s.childRunnable i = true

instance (s : CoordState α n) : Decidable s.anyRunnable :=
  inferInstanceAs (Decidable (∃ i, s.childRunnable i = true))

/-- `cancel_other_children`: the siblings of the winner end; a null winner ends every child. -/
def cancelChildren (s : CoordState α n) (winner : Option (Fin n)) : CoordState α n :=
  { s with children := fun i =>
      if winner = some i then s.children i else { s.children i with done := true } }

def emitEvent (s : CoordState α n) (index : Nat) (done : Bool) : CoordState α n × Step CoordEvent :=
  let e : CoordEvent := { childIndex := index, generation := s.generation + 1 }
  ({ s with generation := s.generation + 1 }, if done then .valueAndDone e else .value e)

/-- The end of `resume_child`, once the child answered: the state after, and `produced`.  `moved`
tells whether the retained value could be moved out of the pending slot. -/
def resumeChild (s : CoordState α n) (i : Fin n) (answer : Step α) (moved : Bool) :
    CoordState α n × Step α × Bool :=
  let c := s.children i
  let transferFailed (v : α) : CoordState α n × Step α × Bool :=
    ({ s.setChild i { c with value := none, pending := some v } with
        error := some "coordination child value transfer failed" },
      .error (some "coordination child value transfer failed"), false)
  match answer with
  | .value v =>
    if moved then (s.setChild i { c with value := some v, hasValue := true }, answer, true)
    else transferFailed v
  | .valueAndDone v =>
    if moved then
      (s.setChild i { c with value := some v, hasValue := true, done := true }, answer, true)
    else transferFailed v
  | .wait => (s.setChild i { c with waiting := true }, answer, false)
  | .done => (s.setChild i { c with done := true }, answer, false)
  | .error message =>
    ({ s with error := some (message.getD "coordination child failed") }, answer, false)

section resumeChild

variable (s : CoordState α n) (i : Fin n) (answer : Step α) (moved : Bool)

@[simp] theorem resumeChild_mode : (s.resumeChild i answer moved).1.mode = s.mode := by
  cases answer <;> cases moved <;> rfl

@[simp] theorem resumeChild_cancelled :
    (s.resumeChild i answer moved).1.cancelled = s.cancelled := by
  cases answer <;> cases moved <;> rfl

@[simp] theorem resumeChild_sequenceIndex :
    (s.resumeChild i answer moved).1.sequenceIndex = s.sequenceIndex := by
  cases answer <;> cases moved <;> rfl

theorem resumeChild_children_ne {j : Fin n} (hj : j ≠ i) :
    (s.resumeChild i answer moved).1.children j = s.children j := by
  cases answer <;> cases moved <;> simp [resumeChild, hj]

theorem resumeChild_done_waiting (hd : (s.children i).done = false)
    (hw : (s.children i).waiting = false) :
    ((s.resumeChild i answer moved).1.children i).done = true →
      ((s.resumeChild i answer moved).1.children i).waiting = false := by
  cases answer <;> cases moved <;> simp [resumeChild, hd, hw]

theorem resumeChild_of_not_produced (hr : (s.resumeChild i answer moved).2.2 = false) :
    ((s.resumeChild i answer moved).1.children i).hasValue = (s.children i).hasValue ∧
      (((s.resumeChild i answer moved).1.children i).done = true →
        (s.children i).done = true ∨ answer = .done) := by
  cases answer <;> cases moved <;> simp_all [resumeChild]

end resumeChild

end CoordState

/-- Where the thread inside `coord_resume` stands. -/
inductive CoordPoint (n : Nat) where
  | head
  | scan (start k : Nat) (progressed : Bool)
  | child (start k : Nat) (i : Fin n) (progressed : Bool)
  | tail (progressed : Bool)

/-- What one piece of a resume function does next: it goes on at a point or returns. -/
inductive CoordNext (n : Nat) where
  | goto (point : CoordPoint n)
  | ret (step : Step CoordEvent)

namespace CoordState

variable {α : Type} {n : Nat}

/-- Returns what `emit_event` built. -/
def returnEvent (s : CoordState α n) (index : Nat) (done : Bool) : CoordState α n × CoordNext n :=
  let r := s.emitEvent index done
  (r.1, .ret r.2)

def resumeEntry (s : CoordState α n) : CoordState α n × CoordNext n :=
  if s.cancelled then (s, .ret .done)
  else
    match s.error with
    | some message => (s, .ret (.error (some message)))
    | none =>
      if (s.mode = .all ∨ s.mode = .allDone) ∧ s.emittedAll then (s, .ret .done)
      else (s, .goto .head)

def callChild (s : CoordState α n) (start k : Nat) (i : Fin n) (progressed : Bool) :
    CoordState α n × CoordNext n :=
  if (s.children i).pending.isSome then
    ({ s with error := some "coordination child output slot is not empty" },
      .ret (.error (some "coordination child output slot is not empty")))
  else (s, .goto (.child start k i progressed))

/-- The end of an iteration of `coord_resume_sequence` that has a value of child `i`. -/
def sequenceEmit (s : CoordState α n) (i : Fin n) : CoordState α n × CoordNext n :=
  let t := s.setChild i { s.children i with done := true }
  { t with sequenceIndex := s.sequenceIndex + 1 }.returnEvent i (i.val + 1 == n)

/-- Head of the loop of `coord_resume_sequence`. -/
def sequenceHead (s : CoordState α n) (i : Fin n) : CoordState α n × CoordNext n :=
  let c := s.children i
  if c.waiting then (s, .ret .wait)
  else if c.done && !c.hasValue then
    ({ s with sequenceIndex := s.sequenceIndex + 1 }, .goto .head)
  else if !c.hasValue then s.callChild 0 0 i false
  else s.sequenceEmit i

def resumeHead (s : CoordState α n) : CoordState α n × CoordNext n :=
  match s.mode with
  | .all =>
    if s.allHaveValue then
      { s.cancelChildren none with emittedAll := true }.returnEvent sizeMax true
    else (s, .goto (.scan s.cursor 0 false))
  | .allDone =>
    if s.allDone then
      if s.allHaveValue then { s with emittedAll := true }.returnEvent sizeMax true
      else (s, .ret (.error (some "ALL_DONE child completed without a value")))
    else (s, .goto (.scan s.cursor 0 false))
  | .any => (s, .goto (.scan s.cursor 0 false))
  | .latest =>
    if s.allDone then (s, .ret .done) else (s, .goto (.scan s.cursor 0 false))
  | .sequence =>
    if h : s.sequenceIndex < n then s.sequenceHead ⟨s.sequenceIndex, h⟩ else (s, .ret .done)

def skips (s : CoordState α n) (i : Fin n) : Bool :=
  let c := s.children i
  match s.mode with
  | .all => c.done || c.waiting || c.hasValue
  | .latest => !s.childRunnable i
  | _ => c.done || c.waiting

def resumeScan (s : CoordState α n) (start k : Nat) (progressed : Bool) :
    CoordState α n × CoordNext n :=
  if h : k < n then
    let i : Fin n := ⟨(start + k) % n, Nat.mod_lt _ (Nat.zero_lt_of_lt h)⟩
    if s.skips i then (s, .goto (.scan start (k + 1) progressed))
    else s.callChild start k i progressed
  else (s, .goto (.tail progressed))

def sequenceAnswer (s : CoordState α n) (i : Fin n) (answer : Step α) (produced : Bool) :
    CoordState α n × CoordNext n :=
  match answer with
  | .error message => (s, .ret (.error message))
  | .wait => (s, .ret .wait)
  | _ =>
    if produced then s.sequenceEmit i
    else if (s.children i).done then
      ({ s with sequenceIndex := s.sequenceIndex + 1 }, .goto .head)
    else (s, .goto .head)

/-- What the inner loop of the other modes does with the answer of child `i`. -/
def scanAnswer (s : CoordState α n) (start k : Nat) (i : Fin n) (progressed : Bool)
    (answer : Step α) (produced : Bool) : CoordState α n × CoordNext n :=
  let next (progressed : Bool) : CoordNext n := .goto (.scan start (k + 1) progressed)
  let counted := progressed || produced || answer matches .done
  match answer, s.mode with
  | .error message, _ => (s, .ret (.error message))
  | _, .all =>
    if (s.children i).done && !(s.children i).hasValue then
      (s, .ret (.error (some "ALL child completed without a value")))
    else if s.allHaveValue then (s, .goto (.tail counted))
    else (s, next counted)
  | _, .allDone => (s, next counted)
  | _, .any =>
    if produced then (s.cancelChildren (some i)).returnEvent i true else (s, next progressed)
  | _, _ =>
    if produced then
      if s.allHaveValue then s.returnEvent i (decide s.allDone) else (s, next true)
    else (s, next progressed)

/-- The return of the child called by `resume_child`, and what the mode does with it. -/
def resumeAnswer (s : CoordState α n) (start k : Nat) (i : Fin n) (progressed : Bool)
    (answer : Step α) (moved : Bool) : CoordState α n × CoordNext n :=
  let r := s.resumeChild i answer moved
  if s.mode = .sequence then r.1.sequenceAnswer i r.2.1 r.2.2
  else { r.1 with cursor := (i.val + 1) % n }.scanAnswer start k i progressed r.2.1 r.2.2

def resumeTail (s : CoordState α n) (progressed : Bool) : CoordState α n × CoordNext n :=
  let waits := if !progressed ∧ ¬s.anyRunnable then CoordNext.ret .wait else .goto .head
  match s.mode with
  | .all => (s, if s.allHaveValue then .goto .head else waits)
  | .allDone => (s, if s.allDone then .goto .head else waits)
  | .any =>
    (s, if s.allDone then .ret .done else if ¬s.anyRunnable then .ret .wait else .goto .head)
  | .latest =>
    (s, if ∃ i, (s.children i).done = true ∧ (s.children i).hasValue = false then .ret .done
      else waits)
  | .sequence => (s, .goto .head)

@[simp] theorem resumeTail_state (s : CoordState α n) (progressed : Bool) :
    (s.resumeTail progressed).1 = s := by
  unfold resumeTail
  cases s.mode <;> rfl

def childWake (s : CoordState α n) (i : Fin n) : CoordState α n :=
  { s.setChild i { s.children i with waiting := false, armed := false } with waiter := false }

def waitArm (s : CoordState α n) : CoordState α n × Bool :=
  if s.cancelled || s.error.isSome then ({ s with waiter := false }, true)
  else
    let arms (i : Fin n) : Bool := (s.children i).waiting && !(s.children i).armed
    let ready := decide (∃ i, arms i = false ∧ s.childRunnable i = true)
    ({ s with
        children := fun i =>
          if arms i then { s.children i with armed := true } else s.children i
        waiter := !ready }, ready)

def armFailed (s : CoordState α n) (i : Fin n) : CoordState α n :=
  { s.setChild i { s.children i with waiting := false, armed := false } with
    error := some "coordination child waitable could not be armed"
    waiter := false }

def cancel (s : CoordState α n) : CoordState α n :=
  let t : CoordState α n := { s with
    cancelled := true
    waiter := false
    children := fun i => { s.children i with armed := false } }
  t.cancelChildren none

end CoordState

/-! ### Runs -/

/-- The coordinator, the call of `coord_resume` in progress, and the step returned last. -/
structure CoordSystem (α : Type) (n : Nat) where
  state : CoordState α n
  point : Option (CoordPoint n) := none
  last : Option (Step CoordEvent) := none

/-- One atomic action on a coordinator.  `advance` moves the resuming thread to its next point,
`answer` is the return of the child it called. -/
inductive CoordAction (α : Type) (n : Nat) where
  | resume
  | advance
  | answer (step : Step α) (moved : Bool)
  | wake (i : Fin n)
  | arm
  | armFailed (i : Fin n)
  | cancel

namespace CoordSystem

variable {α : Type} {n : Nat}

/-- `cflow_resumable_from_coordination`. -/
def create (mode : CoordMode) : CoordSystem α n :=
  { state := { mode := mode, children := fun _ => {} } }

def ended (s : CoordSystem α n) : Bool := s.last.any Step.terminal

def after (s : CoordSystem α n) (r : CoordState α n × CoordNext n) : CoordSystem α n :=
  match r.2 with
  | .goto p => { s with state := r.1, point := some p }
  | .ret step => { state := r.1, point := none, last := some step }

/-- The actions.  No owner resumes a coordinator again that returned a terminal step, and it is
armed only with the waitable of a WAIT. -/
def step (s : CoordSystem α n) : CoordAction α n → Option (CoordSystem α n)
  | .resume =>
    if s.point = none ∧ s.ended = false then some (s.after s.state.resumeEntry) else none
  | .advance =>
    match s.point with
    | some .head => some (s.after s.state.resumeHead)
    | some (.scan start k progressed) => some (s.after (s.state.resumeScan start k progressed))
    | some (.tail progressed) => some (s.after (s.state.resumeTail progressed))
    | _ => none
  | .answer answer moved =>
    match s.point with
    | some (.child start k i progressed) =>
      some (s.after (s.state.resumeAnswer start k i progressed answer moved))
    | _ => none
  | .wake i => some { s with state := s.state.childWake i }
  | .arm =>
    if s.point = none ∧ s.last = some .wait then some { s with state := s.state.waitArm.1 }
    else none
  | .armFailed i =>
    if s.point = none ∧ s.last = some .wait then some { s with state := s.state.armFailed i }
    else none
  | .cancel => if s.point = none then some { s with state := s.state.cancel } else none

def Fresh (s : CoordSystem α n) : Prop := 0 < n ∧ ∃ mode, s = create mode

/-- Action `a` made `coord_resume` return `r`. -/
def Returns (a : CoordAction α n) (t : CoordSystem α n) (r : Step CoordEvent) : Prop :=
  (a = .resume ∨ a = .advance ∨ ∃ answer moved, a = .answer answer moved) ∧
    t.point = none ∧ t.last = some r

def ChildWaits (s : CoordSystem α n) : Prop := ∃ i, (s.state.children i).waiting = true

instance (s : CoordSystem α n) : Decidable s.ChildWaits :=
  inferInstanceAs (Decidable (∃ i, (s.state.children i).waiting = true))

/-- In LATEST, with a value from every child, the only child that is not done answers a DONE
without a value. -/
def LastChildEndsBare (s : CoordSystem α n) (a : CoordAction α n) : Prop :=
  ∃ start k i progressed moved,
    s.point = some (.child start k i progressed) ∧ a = .answer .done moved ∧
    s.state.mode = .latest ∧ s.state.allHaveValue ∧ ∀ j, j ≠ i → (s.state.children j).done = true

end CoordSystem

/-! ### Invariants -/

namespace CoordPoint

variable {n : Nat}

def progressed : CoordPoint n → Option Bool
  | .scan _ _ p => some p
  | .child _ _ _ p => some p
  | .tail p => some p
  | _ => none

def scans : CoordPoint n → Bool
  | .scan _ _ _ => true
  | .tail _ => true
  | _ => false

end CoordPoint

namespace CoordSystem

open CoordPoint (progressed scans)
open CoordState (allHaveValue emitEvent resumeChild_children_ne resumeChild_mode returnEvent)

variable {α : Type} {n : Nat} {s t : CoordSystem α n} {a : CoordAction α n}

@[simp] theorem after_state (r : CoordState α n × CoordNext n) : (s.after r).state = r.1 := by
  unfold after; split <;> rfl

@[simp] theorem after_goto (u : CoordState α n) (p : CoordPoint n) :
    s.after (u, .goto p) = { s with state := u, point := some p } := rfl

@[simp] theorem after_ret (u : CoordState α n) (r : Step CoordEvent) :
    s.after (u, .ret r) = { state := u, point := none, last := some r } := rfl

theorem step_cases (h : s.step a = some t) :
    (a = .resume ∧ s.point = none ∧ s.ended = false ∧ t = s.after s.state.resumeEntry) ∨
    (a = .advance ∧ s.point = some .head ∧ t = s.after s.state.resumeHead) ∨
    (∃ start k p, a = .advance ∧ s.point = some (.scan start k p) ∧
      t = s.after (s.state.resumeScan start k p)) ∨
    (∃ p, a = .advance ∧ s.point = some (.tail p) ∧ t = s.after (s.state.resumeTail p)) ∨
    (∃ answer moved start k i p, a = .answer answer moved ∧ s.point = some (.child start k i p) ∧
      t = s.after (s.state.resumeAnswer start k i p answer moved)) ∨
    (∃ i, a = .wake i ∧ t = { s with state := s.state.childWake i }) ∨
    (a = .arm ∧ s.point = none ∧ s.last = some .wait ∧ t = { s with state := s.state.waitArm.1 }) ∨
    (∃ i, a = .armFailed i ∧ s.point = none ∧ s.last = some .wait ∧
      t = { s with state := s.state.armFailed i }) ∨
    (a = .cancel ∧ s.point = none ∧ t = { s with state := s.state.cancel }) := by
  cases a with
  | resume => simp only [step] at h; grind
  | advance => simp only [step] at h; split at h <;> grind
  | answer answer moved => simp only [step] at h; split at h <;> grind
  | wake i => simp only [step] at h; grind
  | arm => simp only [step] at h; grind
  | armFailed i => simp only [step] at h; grind
  | cancel => simp only [step] at h; grind

def Calls (u : CoordState α n) (i : Fin n) : Prop :=
  (u.children i).done = false ∧ (u.children i).waiting = false ∧
    (u.mode = .all → (u.children i).hasValue = false) ∧
    (u.mode = .sequence → i.val = u.sequenceIndex)

/-- What holds between two actions.  The clauses of a mode say what its resume function has
established at the point it has reached. -/
structure CoordInv (s : CoordSystem α n) : Prop where
  running : s.point ≠ none → s.ended = false ∧ s.state.cancelled = false
  calls : ∀ start k i p, s.point = some (.child start k i p) → Calls s.state i
  all : s.state.mode = .all → s.ended = false → s.state.cancelled = false →
    ∀ i, (s.state.children i).done = true → (s.state.children i).hasValue = true
  allIdle : s.state.mode = .all → s.point = none → s.ended = false → s.state.cancelled = false →
    ¬ s.state.allHaveValue
  scans : s.point.any scans = true → s.state.mode ≠ .sequence
  sequence : s.state.mode = .sequence → s.ended = false → s.state.cancelled = false →
    ∀ i, (s.state.children i).done = true → i.val < s.state.sequenceIndex
  latestDone : s.state.mode = .latest → s.state.cancelled = false →
    ∀ i, (s.state.children i).done = true → (s.state.children i).waiting = false
  latestPass : s.state.mode = .latest → s.state.allHaveValue →
    ∀ p, (s.point.bind progressed) = some p → p = false ∧ ¬ s.state.allDone

variable {u v : CoordState α n} {start k : Nat} {p produced : Bool} {i : Fin n} {answer : Step α}

theorem coordInv_terminal {r : Step CoordEvent} (hr : r.terminal = true)
    (hu : u.mode = .latest → u.cancelled = false →
      ∀ i, (u.children i).done = true → (u.children i).waiting = false) :
    CoordInv { state := u, point := none, last := some r } := by
  constructor <;> simp_all [ended]

section

variable (h : CoordInv s)

include h

theorem CoordInv.move (he : s.ended = false) (hc : s.state.cancelled = false)
    {p : CoordPoint n} (hscans : p.scans = true → s.state.mode ≠ .sequence)
    (hcalls : ∀ start k i q, p = .child start k i q → Calls s.state i)
    (hpass : s.state.mode = .latest → s.state.allHaveValue →
      ∀ q, p.progressed = some q → q = false ∧ ¬ s.state.allDone) :
    CoordInv { s with point := some p } where
  running := fun _ => ⟨he,hc⟩
  calls := fun start k i q hq => hcalls start k i q (Option.some.inj hq)
  all := h.all
  allIdle := by simp
  scans := hscans
  sequence := h.sequence
  latestDone := h.latestDone
  latestPass := hpass

theorem CoordInv.toHead (he : s.ended = false) (hc : s.state.cancelled = false) :
    CoordInv (s.after (s.state, .goto .head)) :=
  h.move he hc (by simp [CoordPoint.scans]) (by simp) (by simp [progressed])

theorem CoordInv.toScan (hp : s.point ≠ none) (hm : s.state.mode ≠ .sequence)
    (hpass : s.state.mode = .latest → s.state.allHaveValue → p = false ∧ ¬ s.state.allDone) :
    CoordInv (s.after (s.state, .goto (.scan start k p))) := by
  obtain ⟨he,hc⟩ := h.running hp
  refine h.move he hc (fun _ => hm) (by simp) ?_
  rintro hl hv _ ⟨⟩
  exact hpass hl hv

theorem coordInv_resume (he : s.ended = false) : CoordInv (s.after s.state.resumeEntry) := by
  unfold CoordState.resumeEntry
  split
  · exact coordInv_terminal rfl h.latestDone
  rename_i hc
  split
  · exact coordInv_terminal rfl h.latestDone
  · split
    · exact coordInv_terminal rfl h.latestDone
    · exact h.toHead he (by simpa using hc)

theorem coordInv_callChild (hp : s.point ≠ none) (hi : Calls s.state i)
    (hpass : s.state.mode = .latest → s.state.allHaveValue → p = false ∧ ¬ s.state.allDone) :
    CoordInv (s.after (s.state.callChild start k i p)) := by
  unfold CoordState.callChild
  split
  · exact coordInv_terminal rfl h.latestDone
  obtain ⟨he,hc⟩ := h.running hp
  refine h.move he hc (by simp [scans]) ?_ ?_
  · rintro _ _ _ _ ⟨⟩
    exact hi
  · rintro hm hv _ ⟨⟩
    exact hpass hm hv

end

theorem skips_eq_false (h : u.skips i = false) :
    (u.children i).done = false ∧ (u.children i).waiting = false ∧
      (u.mode = .all → (u.children i).hasValue = false) := by
  unfold CoordState.skips CoordState.childRunnable at h
  cases hm : u.mode <;> simp_all

theorem coordInv_scan (h : CoordInv s) (hp : s.point = some (.scan start k p)) :
    CoordInv (s.after (s.state.resumeScan start k p)) := by
  obtain ⟨he,hc⟩ := h.running (by simp [hp])
  have hm : s.state.mode ≠ .sequence := h.scans (by simp [hp, scans])
  have hpass (hl) (hv) :
      p = false ∧ ¬ s.state.allDone := h.latestPass hl hv p (by simp [hp, progressed])
  unfold CoordState.resumeScan
  split
  · dsimp only
    split
    · exact h.toScan (by simp [hp]) hm hpass
    · rename_i hskip
      obtain ⟨hd,hw,hv⟩ := skips_eq_false (by simpa using hskip)
      exact coordInv_callChild h (by simp [hp]) ⟨hd,hw,hv,fun hs => absurd hs hm⟩ hpass
  · refine h.move he hc (fun _ => hm) (by simp) ?_
    rintro hl hv _ ⟨⟩
    exact hpass hl hv

theorem coordInv_sequenceEmit (hm : u.mode = .sequence) (hi : i.val = u.sequenceIndex)
    (hu : ∀ j, j ≠ i → (u.children j).done = true → j.val < u.sequenceIndex) :
    CoordInv (s.after (u.sequenceEmit i)) := by
  have hdone : ∀ j,
      ((Function.update u.children i { u.children i with done := true }) j).done = true →
      j.val < u.sequenceIndex+1 := by
    intro j hj
    by_cases hji : j = i
    · subst hji
      omega
    · rw [Function.update_of_ne hji] at hj
      have := hu j hji hj
      omega
  constructor <;>
    simp_all [CoordState.sequenceEmit, returnEvent, emitEvent, progressed]

theorem coordInv_sequenceHead (h : CoordInv s) (hp : s.point = some .head)
    (hm : s.state.mode = .sequence) (hi : i.val = s.state.sequenceIndex) :
    CoordInv (s.after (s.state.sequenceHead i)) := by
  obtain ⟨he,hc⟩ := h.running (by simp [hp])
  have hseq := h.sequence hm he hc
  unfold CoordState.sequenceHead
  dsimp only
  split
  · constructor <;> simp_all
  split
  · have := hseq i (by simp_all)
    omega
  · split
    · exact coordInv_callChild h (by simp [hp])
        ⟨by grind,by simp_all,by simp [hm],fun _ => hi⟩ (by simp [hm])
    · exact coordInv_sequenceEmit hm hi fun j _ => hseq j

theorem coordInv_head (h : CoordInv s) (hp : s.point = some .head) :
    CoordInv (s.after s.state.resumeHead) := by
  have hne : s.point ≠ none := by simp [hp]
  unfold CoordState.resumeHead
  cases hm : s.state.mode with
  | all =>
    dsimp only
    split
    · exact coordInv_terminal rfl fun hl => absurd (hm.symm.trans hl) (by simp)
    · exact h.toScan hne (by simp [hm]) (by simp [hm])
  | allDone =>
    dsimp only
    split
    · split
      · exact coordInv_terminal rfl fun hl => absurd (show CoordMode.allDone = .latest from hl)
          (by decide)
      · exact coordInv_terminal rfl h.latestDone
    · exact h.toScan hne (by simp [hm]) (by simp [hm])
  | any => exact h.toScan hne (by simp [hm]) (by simp [hm])
  | latest =>
    dsimp only
    split
    · exact coordInv_terminal rfl h.latestDone
    · rename_i hd
      exact h.toScan hne (by simp [hm]) fun _ _ => ⟨rfl,hd⟩
  | sequence =>
    dsimp only
    split
    · exact coordInv_sequenceHead h hp hm rfl
    · exact coordInv_terminal rfl h.latestDone

theorem CoordInv.waits (h : CoordInv s) (hp : s.point ≠ none)
    (hv : s.state.mode = .all → ¬ s.state.allHaveValue) :
    CoordInv (s.after (s.state, .ret .wait)) where
  running := by simp
  calls := by simp
  all := fun hm _ hc => h.all hm (h.running hp).1 hc
  allIdle := fun hm _ _ _ => hv hm
  scans := by simp
  sequence := fun hm _ hc => h.sequence hm (h.running hp).1 hc
  latestDone := h.latestDone
  latestPass := by simp

theorem coordInv_tail (h : CoordInv s) (hp : s.point = some (.tail p)) :
    CoordInv (s.after (s.state.resumeTail p)) := by
  have hne : s.point ≠ none := by simp [hp]
  obtain ⟨he,hc⟩ := h.running hne
  unfold CoordState.resumeTail
  cases hm : s.state.mode with
  | all =>
    dsimp only
    split
    · exact h.toHead he hc
    rename_i hv
    split
    · exact h.waits hne fun _ => hv
    · exact h.toHead he hc
  | sequence => exact h.toHead he hc
  | allDone | any | latest =>
    repeat' split
    all_goals first
      | exact h.toHead he hc
      | exact h.waits hne (by simp [hm])
      | exact coordInv_terminal rfl h.latestDone

theorem coordInv_pass {q : CoordPoint n} (hq : q.scans = true) (he : s.ended = false)
    (hc : u.cancelled = false) (hm : u.mode ≠ .sequence) (hall : u.mode = .all →
      ∀ j, (u.children j).done = true → (u.children j).hasValue = true)
    (hdone : u.mode = .latest → ∀ j, (u.children j).done = true → (u.children j).waiting = false)
    (hpass : u.mode = .latest → u.allHaveValue →
      ∀ p, q.progressed = some p → p = false ∧ ¬ u.allDone) : CoordInv (s.after (u, .goto q)) where
  running := fun _ => ⟨he,hc⟩
  calls := by rintro start k i p ⟨⟩; simp [scans] at hq
  all := fun ha _ _ => hall ha
  allIdle := by simp
  scans := fun _ => hm
  sequence := fun h => absurd h hm
  latestDone := fun hl _ => hdone hl
  latestPass := hpass

theorem coordInv_scanAnswer (he : s.ended = false) (hc : u.cancelled = false)
    (hm : u.mode ≠ .sequence) (hall : u.mode = .all →
      ∀ j, j ≠ i → (u.children j).done = true → (u.children j).hasValue = true)
    (hdone : u.mode = .latest → ∀ j, (u.children j).done = true → (u.children j).waiting = false)
    (hpass : u.mode = .latest → produced = false → u.allHaveValue → p = false ∧ ¬ u.allDone) :
    CoordInv (s.after (u.scanAnswer start k i p answer produced)) := by
  unfold CoordState.scanAnswer
  dsimp only
  split
  · exact coordInv_terminal rfl fun hl _ => hdone hl
  · rename_i hmode
    split
    · exact coordInv_terminal rfl fun hl _ => hdone hl
    rename_i hi
    have hall' : ∀ j, (u.children j).done = true → (u.children j).hasValue = true := by
      intro j hj
      by_cases hji : j = i
      · subst hji
        simpa [hj] using hi
      · exact hall hmode j hji hj
    split <;>
      exact coordInv_pass rfl he hc hm (fun _ => hall') hdone (by simp [hmode])
  · rename_i hmode
    exact coordInv_pass rfl he hc hm (by simp [hmode]) (by simp [hmode]) (by simp [hmode])
  · rename_i hmode
    split
    · exact coordInv_terminal rfl fun hl =>
        absurd (hmode.symm.trans (hl)) (by decide)
    · exact coordInv_pass rfl he hc hm (by simp [hmode]) (by simp [hmode]) (by simp [hmode])
  · have hl : u.mode = .latest := by
      cases hu : u.mode <;> simp_all
    split
    · split
      · constructor <;>
          simp_all [returnEvent, emitEvent]
      · rename_i hv
        exact coordInv_pass rfl he hc hm (by simp [hl]) hdone fun _ h => absurd h hv
    · rename_i hprod
      refine coordInv_pass rfl he hc hm (by simp [hl]) hdone ?_
      rintro - hv _ ⟨⟩
      exact hpass hl (by simpa using hprod) hv

theorem coordInv_sequenceAnswer (he : s.ended = false) (hc : u.cancelled = false)
    (hm : u.mode = .sequence) (hi : i.val = u.sequenceIndex)
    (hu : ∀ j, j ≠ i → (u.children j).done = true → j.val < u.sequenceIndex)
    (hwait : answer = .wait → (u.children i).done = false) :
    CoordInv (s.after (u.sequenceAnswer i answer produced)) := by
  have hmove (v) (hvm : v.mode = .sequence) (hvc : v.cancelled = false)
      (hv : ∀ j, (v.children j).done = true → j.val < v.sequenceIndex) :
      CoordInv (s.after (v,.goto .head)) := by
    constructor <;> simp_all [scans, ended]
  unfold CoordState.sequenceAnswer
  split
  · exact coordInv_terminal rfl (by simp [hm])
  · have hv : ∀ j, (u.children j).done = true → j.val < u.sequenceIndex := by
      intro j hj
      by_cases hji : j = i
      · rw [hji, hwait rfl] at hj
        cases hj
      · exact hu j hji hj
    constructor <;> simp_all [ended]
  · split
    · exact coordInv_sequenceEmit hm hi hu
    split
    · refine hmove _ hm hc fun j hj => ?_
      by_cases hji : j = i
      · simp only
        omega
      · exact Nat.lt_succ_of_lt (hu j hji hj)
    · rename_i hd
      refine hmove _ hm hc fun j hj => ?_
      by_cases hji : j = i
      · exact absurd (hji ▸ hj) hd
      · exact hu j hji hj

theorem coordInv_answer (h : CoordInv s) (hp : s.point = some (.child start k i p)) {moved : Bool}
    (hok : ¬ s.LastChildEndsBare (.answer answer moved)) :
    CoordInv (s.after (s.state.resumeAnswer start k i p answer moved)) := by
  obtain ⟨he,hc⟩ := h.running (by simp [hp])
  obtain ⟨hd,hw,hv,hi⟩ := h.calls _ _ _ _ hp
  unfold CoordState.resumeAnswer
  split
  · rename_i hm
    refine coordInv_sequenceAnswer he (by simp [hc]) (by simp [hm]) (by simp [hi hm]) ?_ ?_
    · intro j hj
      rw [resumeChild_children_ne _ _ _ _ hj, CoordState.resumeChild_sequenceIndex]
      exact h.sequence hm he hc j
    · by_contra hdone
      cases answer <;> cases moved <;> simp_all [CoordState.resumeChild]
  · rename_i hm
    refine coordInv_scanAnswer he (by simp [hc]) (by simpa using hm) ?_ ?_ ?_
    · intro ha j hj
      simp only [resumeChild_mode] at ha
      rw [resumeChild_children_ne _ _ _ _ hj]
      exact h.all ha he hc j
    · intro hl j hj
      simp only [resumeChild_mode] at hl
      by_cases hji : j = i
      · subst hji
        exact s.state.resumeChild_done_waiting j answer moved hd hw hj
      · rw [resumeChild_children_ne _ _ _ _ hji] at hj ⊢
        exact h.latestDone hl hc j hj
    · intro hl hprod hall
      simp only [resumeChild_mode] at hl
      obtain ⟨hval,hcases⟩ := s.state.resumeChild_of_not_produced i answer moved hprod
      have hv : s.state.allHaveValue := by
        intro j
        by_cases hji : j = i
        · rw [hji, ← hval]
          exact hall i
        · rw [← s.state.resumeChild_children_ne i answer moved hji]
          exact hall j
      refine ⟨(h.latestPass hl hv p (by simp [hp, progressed])).1,fun hall' => ?_⟩
      -- every other child was done before, so the child that answered is the last one
      have hanswer : answer = .done := by
        simpa [hd] using hcases (hall' i)
      refine hok ⟨start,k,i,p,moved,hp,by rw [hanswer],hl,hv,fun j hj => ?_⟩
      rw [← s.state.resumeChild_children_ne i answer moved hj]
      exact hall' j

/-- Wakes and arming: the owner's side touches neither the modes nor what the children have
answered, and starts no wait. -/
structure Quiet (u v : CoordState α n) : Prop where
  mode : v.mode = u.mode
  cancelled : v.cancelled = u.cancelled
  sequenceIndex : v.sequenceIndex = u.sequenceIndex
  done : ∀ i, (v.children i).done = (u.children i).done
  hasValue : ∀ i, (v.children i).hasValue = (u.children i).hasValue
  waiting : ∀ i, (v.children i).waiting = true → (u.children i).waiting = true

theorem quiet_stopsWaiting (i : Fin n) (hm : v.mode = u.mode) (hc : v.cancelled = u.cancelled)
    (hs : v.sequenceIndex = u.sequenceIndex) (hv : v.children =
      Function.update u.children i { u.children i with waiting := false, armed := false }) :
    Quiet u v := by
  refine ⟨hm,hc,hs,fun j => ?_,fun j => ?_,fun j => ?_⟩ <;> rw [hv] <;>
    by_cases hj : j = i
  all_goals first
    | (subst hj; simp)
    | simp [hj]

theorem quiet_waitArm (u : CoordState α n) : Quiet u u.waitArm.1 := by
  constructor <;> intros <;> grind [CoordState.waitArm]

theorem CoordInv.quiet (h : CoordInv s) (hq : Quiet s.state v) :
    CoordInv { s with state := v } := by
  have hv : v.allHaveValue ↔ s.state.allHaveValue := by
    simp only [allHaveValue, hq.hasValue]
  have hd : v.allDone ↔ s.state.allDone := by
    simp only [CoordState.allDone, hq.done]
  have hw (i) (hi : (s.state.children i).waiting = false) :
      (v.children i).waiting = false := by
    by_contra hne
    have := hq.waiting i (by simpa using hne)
    simp [hi] at this
  constructor
  · intro hp
    simpa only [ended, hq.cancelled] using h.running hp
  · intro start k i p hp
    obtain ⟨h1,h2,h3,h4⟩ := h.calls start k i p hp
    exact ⟨by simpa only [hq.done] using h1,hw i h2,by simpa only [hq.mode, hq.hasValue] using h3,
      by simpa only [hq.mode, hq.sequenceIndex] using h4⟩
  · simpa only [ended, hq.mode, hq.cancelled, hq.done, hq.hasValue] using h.all
  · simpa only [ended, hq.mode, hq.cancelled, hv] using h.allIdle
  · simpa only [hq.mode] using h.scans
  · simpa only [ended, hq.mode, hq.cancelled, hq.done, hq.sequenceIndex] using h.sequence
  · intro hl hc i hi
    exact hw i (h.latestDone (hq.mode ▸ hl) (hq.cancelled ▸ hc) i (hq.done i ▸ hi))
  · simpa only [hq.mode, hv, hd] using h.latestPass

theorem coordInv_cancel (hp : s.point = none) : CoordInv { s with state := s.state.cancel } := by
  constructor <;>
    simp_all [CoordState.cancel, CoordState.cancelChildren]

/-- Every action but the answer that ends the last child of LATEST bare keeps the invariant. -/
theorem coordInv_step (h : CoordInv s) (hok : ¬ s.LastChildEndsBare a) (hs : s.step a = some t) :
    CoordInv t := by
  rcases step_cases hs with ⟨-,-,he,rfl⟩ | ⟨-,hp,rfl⟩ | ⟨start,k,p,-,hp,rfl⟩ |
    ⟨p,-,hp,rfl⟩ | ⟨answer,moved,start,k,i,p,rfl,hp,rfl⟩ | ⟨i,-,rfl⟩ |
    ⟨-,-,-,rfl⟩ | ⟨i,-,-,-,rfl⟩ | ⟨-,hp,rfl⟩
  · exact coordInv_resume h he
  · exact coordInv_head h hp
  · exact coordInv_scan h hp
  · exact coordInv_tail h hp
  · exact coordInv_answer h hp hok
  · exact h.quiet (quiet_stopsWaiting i rfl rfl rfl rfl)
  · exact h.quiet (quiet_waitArm _)
  · exact h.quiet (quiet_stopsWaiting i rfl rfl rfl rfl)
  · exact coordInv_cancel hp

theorem coordInv_create (mode : CoordMode) (hn : 0 < n) :
    CoordInv (create mode : CoordSystem α n) := by
  constructor <;> simp [create, allHaveValue]
  exact fun _ _ => ⟨⟨0,hn⟩⟩

end CoordSystem

end Salts.CFlow
