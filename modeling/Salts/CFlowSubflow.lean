import Salts.CFlowRunDestroy

/-!
The resumable made from a subgraph (`subflow.c`): a subscription whose sink keeps one value, and a
resume that takes it.  The inner run decides its end under `r->lock`, its sink publishes it under
`s->lock`, and a resume requests demand while it holds neither.
-/

namespace Salts.CFlow

open ThreadPool RunImpl
open RunPoint

structure SubflowState (α : Type) where
  value : Option α := none
  waiter : Bool := false
  requested : Bool := false
  done : Bool := false
  cancelled : Bool := false
  error : Option String := none

inductive SubflowNext (α : Type) where
  | ret (step : Step α)
  | request
  | recheck

namespace SubflowState

variable {α : Type}

def ready (s : SubflowState α) : Bool := s.value.isSome || s.done || s.error.isSome || s.cancelled

def onValue (s : SubflowState α) (v : α) : SubflowState α × Bool :=
  if s.cancelled || s.value.isSome then (s, false)
  else ({ s with value := some v, requested := false, waiter := false }, true)

def onError (s : SubflowState α) (message : String) : SubflowState α :=
  { s with
    error := if s.cancelled then s.error else some message
    requested := false
    waiter := false }

def onDone (s : SubflowState α) : SubflowState α :=
  { s with done := true, requested := false, waiter := false }

/-- `subflow_wait_arm`; the waker is called at once when something is ready. -/
def waitArm (s : SubflowState α) : SubflowState α :=
  if s.ready then s else { s with waiter := true }

def resume (s : SubflowState α) : SubflowState α × SubflowNext α :=
  if s.cancelled then (s, .ret .done)
  else match s.error with
    | some message => (s, .ret (.error (some message)))
    | none =>
      match s.value with
      | some v =>
        ({ s with value := none }, .ret (if s.done then .valueAndDone v else .value v))
      | none =>
        if s.done then (s, .ret .done)
        else if s.requested then (s, .recheck)
        else ({ s with requested := true }, .request)

theorem resume_cases {s : SubflowState α} (hc : s.cancelled = false) :
    (∃ m, s.error = some m ∧ s.resume = (s, .ret (.error (some m)))) ∨
    (∃ v, s.error = none ∧ s.value = some v ∧
      s.resume =
        ({ s with value := none }, .ret (if s.done then .valueAndDone v else .value v))) ∨
    (s.error = none ∧ s.value = none ∧ s.done = true ∧ s.resume = (s, .ret .done)) ∨
    (s.error = none ∧ s.value = none ∧ s.done = false ∧ s.requested = true ∧
      s.resume = (s, .recheck)) ∨
    (s.error = none ∧ s.value = none ∧ s.done = false ∧ s.requested = false ∧
      s.resume = ({ s with requested := true }, .request)) := by
  unfold resume
  cases he : s.error with
  | some m => exact .inl ⟨m,rfl,by simp [hc]⟩
  | none =>
    cases hv : s.value with
    | some v => exact .inr (.inl ⟨v,rfl,rfl,by simp [hc]⟩)
    | none => cases hd : s.done <;> cases hr : s.requested <;> simp [hc]

def requestFailed (s : SubflowState α) : SubflowState α := { s with requested := false }

def cancel (s : SubflowState α) : SubflowState α := { s with cancelled := true, waiter := false }

end SubflowState

/-- `subflow_resume` when its request is refused. -/
def subflowRequestError : String := "subgraph request failed"

/-- Where the thread that resumes stands; `requesting j` waits for thread `j` of the inner run. -/
inductive SubflowPoint where
  | idle
  | resume
  | requesting (thread : Nat)
  | recheck
  deriving DecidableEq

/-- A resumable with its inner run.  `armed` and `woken` are about the last WAIT: whether its waitable
has been armed, and whether the waker has been called since. -/
structure SubflowSystem (δ α ε : Type) where
  run : RunSystem δ α ε
  state : SubflowState α := {}
  point : SubflowPoint := .idle
  armed : Bool := false
  woken : Bool := false
  yields : List (Step α) := []

/-- One atomic action: a move of a thread of the inner run, a call that enters it, or a region of the
thread that resumes, arms or cancels. -/
inductive SubflowAction (α ε : Type) where
  | run (i : Nat) (c : RunChoice)
  | enter (p : RunPoint α ε)
  | resume
  | advance
  | arm
  | cancel

namespace SubflowSystem

variable {δ α ε : Type}

def calledWith (log : List (SinkEvent α)) : Option α :=
  match log.getLast? with
  | some (.value v) => some v
  | _ => none

def failedWith (log : List (SinkEvent α)) : String :=
  match log.getLast? with
  | some (.error message) => message
  | _ => "subgraph error"

/-- A sink callback of the inner run under `s->lock`, with what the run goes on with. -/
def callback (s : SubflowSystem δ α ε) : RunPoint α ε → RunChoice → SubflowState α × RunChoice
  | .inValue _, _ =>
    match calledWith s.run.shared.log with
    | some v =>
      let (t, taken) := s.state.onValue v
      (t, if taken then .go else .refuse)
    | none => (s.state, .go)
  | .inDone, _ => (s.state.onDone, .go)
  | .inError _, _ => (s.state.onError (failedWith s.run.shared.log), .go)
  | .inRejected _ _, _ => (s.state.onError (failedWith s.run.shared.log), .go)
  | _, c => (s.state, c)

def advance (s : SubflowSystem δ α ε) : Option (SubflowSystem δ α ε) :=
  match s.point with
  | .idle => none
  | .resume =>
    let (t, next) := s.state.resume
    match next with
    | .ret step => some { s with state := t, point := .idle, yields := s.yields ++ [step] }
    | .request =>
      some { s with
        state := t
        point := .requesting s.run.threads.length
        run := { s.run with threads := s.run.threads ++ [.request 1] } }
    | .recheck => some { s with state := t, point := .recheck }
  | .requesting j =>
    match s.run.threads[j]? with
    | some (.finished .ok) => some { s with point := .recheck }
    | some (.finished _) =>
      some { s with
        state := s.state.requestFailed
        point := .idle
        yields := s.yields ++ [.error (some subflowRequestError)] }
    | _ => none
  | .recheck =>
    if s.state.ready then some { s with point := .resume }
    else some { s with point := .idle, yields := s.yields ++ [.wait] }

def finished (s : SubflowSystem δ α ε) : Bool := s.yields.any Step.terminal

def waits (s : SubflowSystem δ α ε) : Bool :=
  s.point == .idle && !s.armed && (s.yields.getLast? matches some .wait)

/-- The resumable behind a move of its inner run whose callback left the state `t`: a callback that
takes the waiter away calls its waker. -/
def moved (s : SubflowSystem δ α ε) (run : RunSystem δ α ε) (t : SubflowState α) :
    SubflowSystem δ α ε :=
  { s with run := run, state := t, woken := s.woken || (s.state.waiter && !t.waiter) }

def step (P : Plane δ α ε) (s : SubflowSystem δ α ε) :
    SubflowAction α ε → Option (SubflowSystem δ α ε)
  | .run i c =>
    (s.run.threads[i]?).bind fun p =>
      let (t, c) := s.callback p c
      (runStep P s.run (.run i c)).map fun run => s.moved run t
  | .enter p =>
    (runStep P s.run (.enter p)).map fun run => { s with run := run }
  | .resume =>
    if s.point == .idle && !s.finished then
      some { s with point := .resume, armed := false, woken := false }
    else none
  | .advance => s.advance
  | .arm =>
    if s.waits then
      some { s with state := s.state.waitArm, armed := true, woken := s.state.ready }
    else none
  | .cancel =>
    some { s with
      state := s.state.cancel
      run := { s.run with threads := s.run.threads ++ [.cancel .ignored] } }

/-- A resumable behind `subflow_start`. -/
def Started (s : SubflowSystem δ α ε) : Prop :=
  Subscribed s.run ∧ s = { run := s.run }

end SubflowSystem

/-! ### The inner run -/

def RunReturn.plain : RunReturn → Bool
  | .caller => true
  | .ignored => true
  | .release => true
  | _ => false

/-- Choices of an undisturbed run: no post is refused, no task is cancelled, no callback closes. -/
def RunChoice.regular : RunChoice → Bool
  | .go => true
  | .refuse => true
  | _ => false

variable {k : RunReturn} {st : Status} {p : RunPoint α ε}

namespace RunPoint

def plain : RunPoint α ε → Bool
  | .request n => n == 1
  | .schedule _ published k => k.plain && (published || k != .caller)
  | .posting _ k => k.plain
  | .accepted k => k.plain
  | .releasePosting st k => st == .ok && k.plain
  | .finished st => st == .ok
  | .cancel _ => false
  | .closeClaim => false
  | .closeMark _ => false
  | .closeWait => false
  | .closeDestroy => false
  | .rejected _ _ _ => false
  | .notifyRejected _ _ _ => false
  | .inRejected _ _ => false
  | .releaseRejected _ _ => false
  | .destroy _ => false
  | .free _ => false
  | .closeReturned => false
  | _ => true

def asks : RunPoint α ε → Nat
  | .request _ => 1
  | _ => 0

def calls : RunPoint α ε → Nat
  | .inValue _ => 1
  | _ => 0

def demands : RunPoint α ε → Bool
  | .deliver _ _ => true
  | .arm _ => true
  | .arming _ => true
  | .fail _ _ _ => true
  | .notifyError _ _ => true
  | .inError _ => true
  | _ => false

theorem plain_schedule {f b : Bool} (h : (schedule f b k : RunPoint α ε).plain = true) :
    k.plain = true := by
  simp only [plain, Bool.and_eq_true] at h
  exact h.1

theorem plain_releasePosting (h : (releasePosting st k : RunPoint α ε).plain = true) :
    st = .ok ∧ k.plain = true := by
  simpa [plain] using h

theorem plain_back_ok (hk : k.plain = true) : (back .ok k : RunPoint α ε).plain = true := by
  cases k <;> first | rfl | cases hk

theorem plain_back (hk : k.plain = true) :
    (back st k : RunPoint α ε).asks = 0 ∧ (back st k : RunPoint α ε).calls = 0 ∧
      (back st k : RunPoint α ε).demands = false := by
  cases k <;> first | exact ⟨rfl,rfl,rfl⟩ | cases hk

theorem plain_loop (next : Option Nat) :
    (loop next : RunPoint α ε).plain = true ∧ (loop next : RunPoint α ε).asks = 0 ∧
      (loop next : RunPoint α ε).calls = 0 ∧ (loop next : RunPoint α ε).demands = false := by
  cases next <;> exact ⟨rfl,rfl,rfl,rfl⟩

theorem calls_pumps (h : p.calls = 1) : p.pumps = 1 := by
  cases p <;> simp_all [calls, pumps]

theorem demands_pumps (h : p.demands = true) : p.pumps = 1 := by
  cases p <;> simp_all [demands, pumps]

end RunPoint

structure RunImpl.Undisturbed (r : RunImpl δ α) : Prop where
  cancelRequested : r.cancelRequested = false
  cancelled : r.cancelled = false
  closeRequested : r.closeRequested = false
  closed : r.closed = false
  freed : r.freed = 0

/-- The request of a resume would be refused: the run has ended when the request reaches it, or has
failed when it goes on to schedule the pump, or a counter is exhausted. -/
def requestRefused (r : RunImpl δ α) : RunPoint α ε → Bool
  | .request _ => r.terminated
  | .schedule _ true _ => (r.terminated && r.status != .ok) || (r.admits && r.exhausted)
  | _ => false

section Moves

variable {P : Plane δ α ε} {r t : RunImpl δ α} {p q : RunPoint α ε} {c : RunChoice}
  {new : List (RunPoint α ε)}

theorem unpostedStatus_ok (hu : r.Undisturbed)
    (hl : ((r.terminated && r.status != .ok) || (r.admits && r.exhausted)) = false)
    (ha : r.admits = false ∨ r.exhausted = true) : r.unpostedStatus true = .ok := by
  have hadm : r.admits = false := by
    rcases ha with ha | hx
    · exact ha
    · simp only [Bool.or_eq_false_iff, hx, Bool.and_true] at hl
      exact hl.2
  cases ht : r.terminated
  · simp [RunImpl.unpostedStatus, hu.closed, ht, hadm]
  · have hst : r.status = .ok := by simpa [ht, hadm] using hl
    simp [RunImpl.unpostedStatus, RunImpl.endedStatus, hu.closed, hu.closeRequested,
      hu.cancelRequested, hu.cancelled, ht, hst]

attribute [local simp] RunImpl.move moveCaller moveSchedule movePump RunChoice.regular

theorem move_inValue {k : Nat} (hm : r.move P (.inValue k) .go = some (t, q, new)) :
    t = r ∧ q = .head (k + 1) ∧ new = [] := by
  simp at hm
  exact ⟨hm.1.symm,hm.2.1.symm,hm.2.2⟩

theorem regular_move (hm : r.move P p c = some (t, q, new)) (hc : c.regular = true)
    (hp : p.plain = true) (hu : r.Undisturbed) (hl : requestRefused r p = false) :
    q.plain = true ∧ t.Undisturbed := by
  obtain ⟨h1,h2,h3,h4,h5⟩ := id hu
  cases RunMove.of_move hm
  case requestEnds n status h =>
    have hn : n = 1 := by simpa [plain] using hp
    simp_all [requestRefused]
  case wakeEnds hf => exact absurd h5 hf
  case unposted f published k ha =>
    refine ⟨?_,⟨h1,h2,h3,h4,h5⟩⟩
    cases published with
    | true =>
      rw [unpostedStatus_ok hu hl ha]
      exact plain_back_ok (plain_schedule hp)
    | false => cases k <;> first | rfl | (simp [plain, RunReturn.plain] at hp)
  case refusePost | closeInValue | closeInDone | taskEnded | taskCancelled => cases c <;> simp_all
  case closeInError next => cases c <;> cases next <;> simp_all [loop]
  case takeCancel hq => simp [h1] at hq
  case releasePosting st k hd =>
    obtain ⟨rfl,hk⟩ := plain_releasePosting hp
    exact ⟨plain_back_ok hk,⟨h1,h2,h3,h4,h5⟩⟩
  case releasePostingDestroys hd | releaseTaskDestroys hd =>
    simp [(releaseTaskRef_destroys hd).2.1] at h3
  case unitLoop | failEnded | inError => exact ⟨(plain_loop _).1,⟨h1,h2,h3,h4,h5⟩⟩
  case post g k => exact ⟨hp,hu⟩
  case accepted k => exact ⟨by simpa [plain] using hp,⟨h1,h2,h3,h4,h5⟩⟩
  case admitPump f published k ha =>
    exact ⟨plain_schedule hp,⟨h1,h2,h3,h4,h5⟩⟩
  -- the other moves change no flag, or start at points that are not plain
  all_goals first
    | exact ⟨rfl,⟨h1,h2,h3,h4,h5⟩⟩
    | cases hp

section

variable (h : RunMove P r p t q new)

include h

section

variable (hp : p.plain = true) (hcalls : p.calls = 0) (hd : p.demands = true → 0 < r.demand)

include hp hcalls hd

theorem RunMove.tokens (hone : r.demand + p.asks ≤ 1)
    (hu : r.Undisturbed) (hl : requestRefused r p = false) :
    t.demand + q.asks + q.calls + load asks new + load calls new = r.demand + p.asks := by
  cases h
  case requestEnds n status hend =>
    have hn : n = 1 := by simpa [plain] using hp
    obtain ⟨-,-,-,h4,h5⟩ := hu
    simp_all [requestRefused]
  case request n _ _ =>
    have hn : n = 1 := by simpa [plain] using hp
    simp only [RunImpl.addDemand, asks, calls, load_nil, sizeMax]
    omega
  case deliver i v =>
    have := hd rfl
    simp only [asks, calls, load_nil]
    omega
  case cancelEnds | markAgain | rejectedFails | rejected => cases hp
  case unposted f published k _ =>
    obtain ⟨ha,hc,-⟩ := plain_back (plain_schedule hp)
    rw [ha, hc]
    rfl
  case releasePosting st k _ =>
    obtain ⟨ha,hc,-⟩ := plain_back (plain_releasePosting hp).2
    rw [ha, hc]
    rfl
  case unitLoop next _ _ | failEnded next _ | inError next =>
    obtain ⟨-,ha,hc,-⟩ := plain_loop next
    rw [ha, hc]
    rfl
  case inValue | refuseValue | closeInValue => cases hcalls
  all_goals rfl

theorem RunMove.demands_pos (hpoll : ∀ m, P.poll r.plane ≠ .error m) :
    q.demands = true → 0 < t.demand := by
  cases h
  case unitFail hx =>
    rcases hx with ⟨hx,-⟩ | ⟨rfl,m,hm,-⟩
    · exact fun _ => hx
    · exact absurd hm (hpoll m)
  case unitValue hx | unitWait hx => exact fun _ => hx
  case deliverUnasked hz =>
    have := hd rfl
    omega
  case arm | armFails | fail | notifyError | arming => exact fun _ => hd rfl
  case refuseValue => cases hcalls
  case cancelEnds | markAgain => cases hp
  case unposted f published k _ =>
    rw [(plain_back (plain_schedule hp)).2.2]
    exact nofun
  case releasePosting st k _ =>
    rw [(plain_back (plain_releasePosting hp).2).2.2]
    exact nofun
  case unitLoop | failEnded | inError =>
    rw [(plain_loop _).2.2.2]
    exact nofun
  all_goals exact nofun

end

theorem RunMove.demand_le (hone : r.demand ≤ 1) : r.demand ≤ t.demand ∨ p.opens = true := by
  cases h
  case deliver => exact .inr rfl
  case request n _ _ =>
    refine .inl ?_
    simp only [RunImpl.addDemand, sizeMax]
    omega
  all_goals exact .inl le_rfl

theorem RunMove.log_cases (hp : p.plain = true) (hu : t.Undisturbed) :
    (t.log = r.log ∧ q.calls = 0) ∨ (∃ i v, p = .deliver i v ∧ q = .inValue i ∧ t.log = r.log ++ [.value v]) ∨
      (∃ m next, p = .notifyError m next ∧ q = .inError next ∧ t.log = r.log ++ [.error m]) ∨
      (p = .notifyDone ∧ q = .inDone ∧ t.log = r.log ++ [.done]) := by
  cases h
  case deliver i v => exact .inr (.inl ⟨i,v,rfl,rfl,rfl⟩)
  case notifyError m next => exact .inr (.inr (.inl ⟨m,next,rfl,rfl,rfl⟩))
  case notifyDone => exact .inr (.inr (.inr ⟨rfl,rfl,rfl⟩))
  case notifyRejected | cancelEnds | markAgain => cases hp
  case takeCancel | taskCancelled => cases hu.cancelled
  case unposted f published k _ =>
    exact .inl ⟨rfl,(plain_back (plain_schedule hp)).2.1⟩
  case releasePosting st k _ =>
    exact .inl ⟨rfl,(plain_back (plain_releasePosting hp).2).2.1⟩
  case unitLoop | failEnded | inError => exact .inl ⟨rfl,(plain_loop _).2.2.1⟩
  all_goals exact .inl ⟨rfl,rfl⟩

end

end Moves

def Called (r : RunImpl δ α) : RunPoint α ε → Prop
  | .inValue _ => r.terminated = false ∧ ∃ v, r.log.getLast? = some (.value v)
  | .inError _ => ∃ m, r.log.getLast? = some (.error m)
  | .inDone => r.log.getLast? = some .done
  | _ => True

variable {r : RunImpl δ α}

theorem Called.of_pumps (h : p.pumps = 0) : Called r p := by
  cases p <;> trivial

theorem Called.of_back (hk : k.plain = true) : Called r (.back st k : RunPoint α ε) := by
  cases k <;> trivial

theorem Called.of_loop (next : Option Nat) : Called r (.loop next : RunPoint α ε) := by
  cases next <;> trivial

def tokens (s : RunSystem δ α ε) : Nat :=
  s.shared.demand + load asks s.threads + load calls s.threads

structure InnerInv (s : RunSystem δ α ε) : Prop where
  run : RunInv s
  plain : ∀ p ∈ s.threads, p.plain = true
  undisturbed : s.shared.Undisturbed
  demanded : ∀ p ∈ s.threads, p.demands = true → 0 < s.shared.demand
  called : ∀ p ∈ s.threads, Called s.shared p
  once : tokens s ≤ 1

section Inner

variable {P : Plane δ α ε} {s : RunSystem δ α ε} {t : RunImpl δ α} {p q : RunPoint α ε}
  {c : RunChoice} {new : List (RunPoint α ε)} {i : Nat}

section

variable (h : RunMove P s.shared p t q new) (hs : InnerInv s) (hp : s.threads[i]? = some p)
    (hu : t.Undisturbed)

include h hs hp hu

theorem RunMove.called : Called t q := by
  have hmem := List.mem_of_getElem? hp
  have hplain := hs.plain p hmem
  cases h
  case deliver i v => exact ⟨hs.run.opened _ hmem rfl,v,by simp⟩
  case notifyError m next => exact ⟨m,by simp⟩
  case notifyDone => simp [Called]
  case cancelEnds | markAgain => cases hplain
  case unposted => exact .of_back (plain_schedule hplain)
  case releasePosting => exact .of_back (plain_releasePosting hplain).2
  case unitLoop | failEnded | inError => exact .of_loop _
  all_goals trivial

theorem RunMove.called_other {j : Nat} {x : RunPoint α ε} (hij : j ≠ i)
    (hj : s.threads[j]? = some x) (hx : Called s.shared x) : Called t x := by
  by_cases hturn : p.pumps = 1 ∨ p.holds = 1
  · exact .of_pumps (hs.run.other_pumps hp hturn hj hij)
  have hterm := h.terminated_eq.resolve_right hturn
  have hlog : t.log = s.shared.log := by
    rcases h.log_cases (hs.plain p (List.mem_of_getElem? hp)) hu with
      ⟨heq,-⟩ | ⟨_,_,rfl,-⟩ | ⟨_,_,rfl,-⟩ | ⟨rfl,-⟩
    · exact heq
    all_goals exact absurd (.inl rfl) hturn
  cases x <;> simp only [Called, hterm, hlog] at hx ⊢ <;> exact hx

end

theorem InnerInv.demand_le_one (hs : InnerInv s) : s.shared.demand ≤ 1 := by
  have := hs.once
  simp only [tokens] at this
  omega

section

variable (hs : InnerInv s) (hp : s.threads[i]? = some p)

include hs hp

theorem InnerInv.tokens_move (hm : s.shared.move P p c = some (t, q, new))
    (hgo : p.calls = 1 → c = .go) (hl : requestRefused s.shared p = false) :
    tokens { shared := t, threads := s.threads.set i q ++ new } + p.calls = tokens s := by
  have hmem := List.mem_of_getElem? hp
  have hasks := load_step (w := asks) q new hp
  have hcalls := load_step (w := calls) q new hp
  have hle := weight_le_load (w := asks) hmem
  have honce := hs.once
  have hc : p.calls = 0 ∨ ∃ k, p = .inValue k := by cases p <;> simp [calls]
  simp only [tokens] at honce ⊢
  rcases hc with hc | ⟨k,rfl⟩
  · have hmv : RunMove P s.shared p t q new := RunMove.of_move hm
    have := hmv.tokens (hs.plain p hmem) hc (hs.demanded p hmem) (by omega) hs.undisturbed hl
    omega
  · obtain rfl := hgo rfl
    obtain ⟨rfl,rfl,rfl⟩ := move_inValue hm
    simp only [asks, calls, load_nil] at hasks hcalls ⊢
    omega

theorem InnerInv.move (hm : s.shared.move P p c = some (t, q, new)) (hc : c.regular = true)
    (hgo : p.calls = 1 → c = .go) (hl : requestRefused s.shared p = false)
    (hpoll : ∀ d m, P.poll d ≠ .error m) :
    InnerInv { shared := t, threads := s.threads.set i q ++ new } := by
  have hmem := List.mem_of_getElem? hp
  have hmv := RunMove.of_move hm
  obtain ⟨hq,hu⟩ := regular_move hm hc (hs.plain p hmem) hs.undisturbed hl
  have htok := hs.tokens_move hp hm hgo hl
  have hone := hs.demand_le_one
  refine ⟨hs.run.move hp hmv,?_,hu,?_,?_,?_⟩
  · exact hmv.forall_threads (T := fun _ p => p.plain = true) hs.plain hq (fun _ => rfl)
      (fun _ _ _ _ h => h)
  · refine hmv.forall_threads (T := fun r p => p.demands = true → 0 < r.demand) hs.demanded ?_
      (fun g hd => ?_) ?_
    · have hcalls : p.calls = 0 ∨ ∃ k, p = .inValue k := by cases p <;> simp [calls]
      rcases hcalls with h0 | ⟨k,rfl⟩
      · exact hmv.demands_pos (hs.plain p hmem) h0 (hs.demanded p hmem) (hpoll _)
      obtain rfl := hgo rfl
      obtain ⟨-,rfl,-⟩ := move_inValue hm
      rintro ⟨⟩
    · cases hd
    · -- only the pump spends demand, and no other thread is in it
      intro j x hij hj hx hd
      rcases hmv.demand_le hone with hle | hopen
      · exact Nat.lt_of_lt_of_le (hx hd) hle
      · have := hs.run.other_pumps hp (.inl (opens_pumps hopen)) hj hij
        rw [demands_pumps hd] at this
        cases this
  · exact hmv.forall_threads (T := Called) hs.called (hmv.called hs hp hu) (fun _ => trivial)
      fun j x hij hj hx => hmv.called_other hs hp hu hij hj hx
  · have := hs.once
    omega

theorem InnerInv.calls_eq_zero (hpumps : p.pumps = 1)
    (hcalls : p.calls = 0) : load calls s.threads = 0 := by
  by_contra hne
  obtain ⟨x,hx,hpos⟩ := exists_of_load_pos (Nat.pos_of_ne_zero hne)
  obtain ⟨j,hj⟩ := List.getElem?_of_mem hx
  have hij : j ≠ i := by
    rintro rfl
    rw [hp] at hj
    cases hj
    omega
  have hone : x.calls = 1 := by cases x <;> simp_all [calls]
  have := hs.run.other_pumps hp (.inl hpumps) hj hij
  rw [calls_pumps hone] at this
  cases this

end

theorem RunInv.terminated_of_ends (h : RunInv s) {e : SinkEvent α} (he : e ∈ s.shared.log)
    (hends : e.ends = true) : s.shared.terminated = true := by
  by_contra hne
  have hn := h.notices
  rw [Bool.not_eq_true] at hne
  rw [hne, Bool.toNat_false] at hn
  have := ends_eq_zero (show ends s.shared.log = 0 by omega) e he
  rw [hends] at this
  cases this

theorem InnerInv.enter (hs : InnerInv s) (he : p.entry = true) (hp : p.plain = true)
    (hask : tokens s + p.asks ≤ 1) :
    InnerInv { shared := s.shared, threads := s.threads ++ [p] } := by
  have hw : p.demands = false ∧ p.calls = 0 ∧ p.pumps = 0 := by
    cases p <;> simp_all [RunPoint.entry, RunPoint.plain, RunPoint.demands, RunPoint.calls,
      RunPoint.pumps]
  obtain ⟨hd,hcalls,hpumps⟩ := hw
  refine ⟨hs.run.enter he,?_,hs.undisturbed,?_,?_,?_⟩
  · simpa [or_imp, forall_and, hp] using hs.plain
  · simpa [or_imp, forall_and, hd] using hs.demanded
  · intro x hx
    rcases List.mem_append.1 hx with hx | hx
    · exact hs.called x hx
    · obtain rfl := List.mem_singleton.1 hx
      exact .of_pumps hpumps
  · simp only [tokens, load_append, load_cons, load_nil] at hask ⊢
    omega

theorem InnerInv.subscribed (h : Subscribed s) : InnerInv s := by
  have hrun := RunInv.subscribed h
  obtain ⟨shared,threads⟩ := s
  obtain ⟨rfl,d,rfl⟩ := h
  exact ⟨hrun,by simp,⟨rfl,rfl,rfl,rfl,rfl⟩,by simp,by simp,Nat.zero_le 1⟩

end Inner

end Salts.CFlow
