import Salts.CFlowActor

/-!
Everything a thread of an actor can do in one move, and what the points of its threads stand for.
-/

namespace Salts.CFlow

open ActorImpl
open ActorPoint
open ActorState

inductive ActorMove (r : ActorImpl) :
    ActorPoint → ActorImpl → ActorPoint → List ActorPoint → Prop
  -- `cflow_actor_start`
  | startAgain (h : r.state ≠ .start) :
      ActorMove r .start r (.startReturned (stateStatus r.state)) []
  | start (h : r.state = .start) :
      ActorMove r .start { r with starting := true, state := .running } .startAttach []
  | attach : ActorMove r .startAttach r .startSubscribe []
  | attachFails (message : Option String) :
      ActorMove r .startAttach r (.markFailed message (.start false)) []
  | subscribe : ActorMove r .startSubscribe { r with run := .live } .startOpened [.pump]
  | subscribeFails (message : Option String) :
      ActorMove r .startSubscribe r (.markFailed message (.start false)) []
  | opened : ActorMove r .startOpened { r with starting := false } .startRequest []
  | request : ActorMove r .startRequest r .startPump []
  | requestRefused : ActorMove r .startRequest r .startRefused []
  | pumped : ActorMove r .startPump r (.startReturned .ok) []
  | pumpRefused : ActorMove r .startPump r .startRefused []
  | refusedStopped (h : r.state = .stopped) : ActorMove r .startRefused r (.startClose .ok) []
  | refused (message : Option String) :
      ActorMove r .startRefused r (.markFailed message (.start true)) []
  | startClose (status : ActorStatus) (h : r.run.telling = false) :
      ActorMove r (.startClose status) { r with run := r.run.close } (.startSettle status) []
  | startSettle (status : ActorStatus) :
      ActorMove r (.startSettle status) r.settle (.startReturned status) []
  -- `actor_mark_failed`
  | fails (message : Option String) (copied : Bool) (k : FailCaller) (h : r.state.ended = false) :
      ActorMove r (.markFailed message k) (r.markFailed message copied) (.cancelFailed k) []
  | failsAgain (message : Option String) (copied : Bool) (k : FailCaller)
      (h : r.state.ended = true) :
      ActorMove r (.markFailed message k) (r.markFailed message copied) (.afterFailed false k) []
  | cancelStart (requested : Bool) :
      ActorMove r (.cancelFailed (.start requested)) { r with runtimeCancelled := true }
        (.settleFailed requested) []
  | cancelSink (message : Option String) :
      ActorMove r (.cancelFailed (.sink message)) { r with runtimeCancelled := true }
        (.onError message true) []
  | settleFailed (requested : Bool) :
      ActorMove r (.settleFailed requested) r.settle (.afterFailed true (.start requested)) []
  -- callers
  | stopStart (h : r.state = .start) :
      ActorMove r .stop { r with state := .stopped, terminalSettled := true } .stopClose []
  | stopRunning (h : r.state = .running) :
      ActorMove r .stop { r with state := .stopping } .stopClose []
  | stopAgain (status : ActorStatus) (h : r.state.stops = true) :
      ActorMove r .stop r (.stopReturned status) []
  | stopClose : ActorMove r .stopClose { r with runtimeClosed := true } (.stopReturned .ok) []
  | wait (hs : r.state.ended = true) (ht : r.terminalSettled = true) :
      ActorMove r .wait r (.waitReturned r.state) []
  | turnedAway (valid : Bool) (a b c d e : Nat) (result : ActorSend) (h : result ≠ .accepted) :
      ActorMove r (.send valid)
        { r with
          rejectedNotStarted := a
          rejectedStopping := b
          rejectedStopped := c
          rejectedFailed := d
          rejectedStale := e } (.sent result) []
  | admitted (valid : Bool) (status : MailboxStatus) (hs : r.state = .running)
      (hn : r.starting = false) (hf : r.stale = false) :
      ActorMove r (.send valid) (r.admitEvent status false) (.sent (sendResult status)) []
  | admitWake (valid : Bool) (status : MailboxStatus) (hs : r.state = .running)
      (hn : r.starting = false) (hf : r.stale = false) :
      ActorMove r (.send valid) (r.admitEvent status true) (.sendWake (sendResult status)) []
  | wake (result : ActorSend) : ActorMove r (.sendWake result) r (.sendWoken result) []
  | woken (result : ActorSend) :
      ActorMove r (.sendWoken result) { r with pendingWakes := r.pendingWakes - 1 }
        (.sent result) []
  -- the sink
  | runDone (h : r.run = .live) : ActorMove r .pump { r with run := .ended .done } .sinkDone []
  | runError (message : Option String) (h : r.run = .live) :
      ActorMove r .pump { r with run := .ended (.error message) }
        (.markFailed message (.sink message)) []
  | runCancelled (h : r.run = .live) :
      ActorMove r .pump { r with run := .over .cancelled } .runReturned []
  | sinkDone (running : Bool) : ActorMove r .sinkDone r (.sinkDecide running) []
  | sinkStops (running : Bool) (h : r.state = .stopping ∨ r.state = .running) :
      ActorMove r (.sinkDecide running) r.stopped .onDone []
  | sinkStopsQuiet (running : Bool) (h : r.state = .stopping ∨ r.state = .running) :
      ActorMove r (.sinkDecide running) r.stopped (.sinkSettle true) []
  | sinkUnexpected (running copied : Bool) (message : Option String) (h : r.state = .running) :
      ActorMove r (.sinkDecide running) (r.unexpected copied) (.cancelDone message) []
  | sinkNothing (running : Bool) : ActorMove r (.sinkDecide running) r (.sinkSettle false) []
  | cancelDone (message : Option String) :
      ActorMove r (.cancelDone message) { r with runtimeCancelled := true }
        (.onError message true) []
  | onError (message : Option String) (settle : Bool) :
      ActorMove r (.onError message settle) { r with calls := r.calls ++ [.error message] }
        (.inError settle) []
  | onErrorQuiet (message : Option String) (settle : Bool) :
      ActorMove r (.onError message settle) r (.sinkSettle settle) []
  | inError (settle : Bool) : ActorMove r (.inError settle) r (.sinkSettle settle) []
  | onDone : ActorMove r .onDone { r with calls := r.calls ++ [.done] } .inDone []
  | inDone : ActorMove r .inDone r (.sinkSettle true) []
  | sinkSettle : ActorMove r (.sinkSettle true) r.settle .sinkReturn []
  | sinkUnsettled : ActorMove r (.sinkSettle false) r .sinkReturn []
  | sinkReturn (e : RunEnd) (h : r.run = .ended e) :
      ActorMove r .sinkReturn { r with run := .over e } .runReturned []
  -- `cflow_actor_destroy`
  | destroy : ActorMove r .destroy r.makeStale .destroyWait []
  | destroyWait (h : r.pendingWakes = 0) : ActorMove r .destroyWait r .destroyClose []
  | destroyClose : ActorMove r .destroyClose { r with runtimeClosed := true } .destroyCloseRun []
  | destroyCloseRun (h : r.run.telling = false) :
      ActorMove r .destroyCloseRun { r with run := r.run.close } .destroyRuntime []
  | destroyRuntime :
      ActorMove r .destroyRuntime { r with runtimeDestroyed := true } .destroySettle []
  | destroySettle : ActorMove r .destroySettle r.destroyed .destroyed []

variable {valid copied : Bool}

namespace ActorMove

variable {r : ActorImpl} {p : ActorPoint} {c : ActorChoice} {m : Move}

theorem of_moveStart (h : r.moveStart p c = some m) : ActorMove r p m.1 m.2.1 m.2.2 := by
  cases p <;> cases c <;> simp only [moveStart, reduceCtorEq] at h
  case start.go =>
    split_ifs at h with hs
    · cases h
      exact .start hs
    · cases h
      exact .startAgain hs
  case startRequest.go =>
    cases h
    cases r.run.takesDemand
    exacts [.requestRefused, .request]
  case startPump.go =>
    cases h
    cases r.run.takesDemand || r.run.completed
    exacts [.pumpRefused, .pumped]
  case startPump.refuse =>
    cases h
    cases r.run.completed
    exacts [.pumpRefused, .pumped]
  case startRefused.go =>
    cases h
    split_ifs with hs
    · exact .refusedStopped hs
    · exact .refused _
  case startClose.go =>
    split_ifs at h with ht
    cases h
    exact .startClose _ (by simpa using ht)
  all_goals
    cases h
    constructor

theorem of_moveFail (h : r.moveFail p c = some m) : ActorMove r p m.1 m.2.1 m.2.2 := by
  cases p <;> cases c <;> simp only [moveFail, reduceCtorEq] at h
  case markFailed.go message k | markFailed.refuse message k =>
    cases h
    cases he : r.state.ended
    · exact .fails _ _ _ he
    · exact .failsAgain _ _ _ he
  case cancelFailed.go k =>
    cases h
    cases k
    exacts [.cancelStart _, .cancelSink _]
  case settleFailed.go requested =>
    cases h
    exact .settleFailed requested

theorem of_turnsAway {t : ActorImpl} {result : ActorSend}
    (h : r.turnsAway valid = some (t, result)) : ActorMove r (.send valid) t (.sent result) [] := by
  unfold turnsAway at h
  split_ifs at h
  all_goals first
    | (cases h; exact .turnedAway valid _ _ _ _ _ _ (by decide))
    | (split at h <;> cases h <;> exact .turnedAway valid _ _ _ _ _ _ (by decide))

theorem turnsAway_none (h : r.turnsAway valid = none) :
    r.state = .running ∧ r.starting = false ∧ r.stale = false := by
  unfold turnsAway at h
  split_ifs at h with h1 h2 h3
  all_goals
    rw [not_or] at h3
    refine ⟨?_,by simpa using h3.2,by simpa using h1⟩
    cases hs : r.state <;> simp_all

theorem of_moveCaller (h : r.moveCaller p c = some m) : ActorMove r p m.1 m.2.1 m.2.2 := by
  cases p <;> cases c <;> simp only [moveCaller, reduceCtorEq] at h
  case stop.go =>
    split at h <;> cases h
    case h_1 hs => exact .stopStart hs
    case h_2 hs => exact .stopRunning hs
    case h_3 h1 h2 =>
      refine .stopAgain _ ?_
      cases hs : r.state <;> simp_all [stops]
  case wait.go =>
    split_ifs at h with hw
    cases h
    rw [Bool.and_eq_true] at hw
    exact .wait hw.1 hw.2
  case send.answer valid status wake =>
    split at h <;> cases h
    case h_1 ht => exact of_turnsAway ht
    case h_2 ht =>
      obtain ⟨hs,hn,hf⟩ := turnsAway_none ht
      cases wake
      exacts [.admitted valid status hs hn hf, .admitWake valid status hs hn hf]
  all_goals
    cases h
    constructor

theorem of_sinkDecide {running : Bool} (h : r.moveSink (.sinkDecide running) c = some m) :
    ActorMove r (.sinkDecide running) m.1 m.2.1 m.2.2 := by
  simp only [moveSink] at h
  split_ifs at h with h1 h2 h3
  · cases h
    exact .sinkStops _ (h1.imp_right And.left)
  · cases h
    exact .sinkStopsQuiet _ (h1.imp_right And.left)
  · cases h
    exact .sinkUnexpected _ _ _ h3
  · cases h
    exact .sinkNothing _

theorem of_moveSink (h : r.moveSink p c = some m) : ActorMove r p m.1 m.2.1 m.2.2 := by
  cases p
  case sinkDecide => exact of_sinkDecide h
  all_goals cases c <;> simp only [moveSink, reduceCtorEq] at h
  case pump.ends e =>
    split_ifs at h with hl
    cases e <;> cases h
    exacts [.runDone hl, .runError _ hl, .runCancelled hl]
  case onError.go =>
    split_ifs at h <;> cases h
    exacts [.onError _ _, .onErrorQuiet _ _]
  case sinkSettle.go settle =>
    cases h
    cases settle
    exacts [.sinkUnsettled, .sinkSettle]
  case sinkReturn.go =>
    split at h <;> cases h
    case h_1 e he => exact .sinkReturn e he
  all_goals
    cases h
    constructor

theorem of_moveDestroy (h : r.moveDestroy p c = some m) : ActorMove r p m.1 m.2.1 m.2.2 := by
  cases p <;> cases c <;> simp only [moveDestroy, reduceCtorEq] at h
  case destroyWait.go =>
    split_ifs at h with hw
    cases h
    exact .destroyWait hw
  case destroyCloseRun.go =>
    split_ifs at h with ht
    cases h
    exact .destroyCloseRun (by simpa using ht)
  all_goals
    cases h
    constructor

theorem of_move (h : r.move p c = some m) : ActorMove r p m.1 m.2.1 m.2.2 := by
  simp only [ActorImpl.move, Option.or_eq_some_iff] at h
  rcases h with h | ⟨-,h | ⟨-,h | ⟨-,h | ⟨-,h⟩⟩⟩⟩
  · exact of_moveStart h
  · exact of_moveFail h
  · exact of_moveCaller h
  · exact of_moveSink h
  · exact of_moveDestroy h

end ActorMove

/-! ### What every interleaving keeps -/

open ThreadPool Transition

abbrev ActorSystem := Config ActorImpl ActorPoint

abbrev ActorAction := Act ActorPoint ActorChoice

def actorStep : ActorSystem → ActorAction → Option ActorSystem :=
  ThreadPool.step ActorImpl.move entry

/-- An actor as `cflow_actor_init` or `cflow_statechart_actor_init` leaves it. -/
def ActorReady (s : ActorSystem) : Prop :=
  s.threads = [] ∧ ∃ runtime onError onDone, s.shared = { runtime, onError, onDone }

namespace ActorPoint

def opening : ActorPoint → Nat
  | .startAttach => 1
  | .startSubscribe => 1
  | .markFailed _ (.start false) => 1
  | .cancelFailed (.start false) => 1
  | .settleFailed false => 1
  | _ => 0

def opened : ActorPoint → Nat
  | .startOpened => 1
  | .startRequest => 1
  | .startPump => 1
  | .startRefused => 1
  | .startClose _ => 1
  | .startSettle _ => 1
  | .markFailed _ (.start true) => 1
  | .cancelFailed (.start true) => 1
  | .settleFailed true => 1
  | _ => 0

def starts (p : ActorPoint) : Nat := p.opening + p.opened

def precall : ActorPoint → Nat
  | .sinkDone => 1
  | .sinkDecide _ => 1
  | .cancelDone _ => 1
  | .markFailed _ (.sink _) => 1
  | .cancelFailed (.sink _) => 1
  | .onError _ _ => 1
  | .onDone => 1
  | _ => 0

def inCallback : ActorPoint → Nat
  | .inError _ => 1
  | .inDone => 1
  | _ => 0

def postcall : ActorPoint → Nat
  | .sinkSettle _ => 1
  | .sinkReturn => 1
  | _ => 0

def sinking (p : ActorPoint) : Nat := p.precall + p.inCallback + p.postcall

def waking : ActorPoint → Nat
  | .sendWake _ => 1
  | .sendWoken _ => 1
  | _ => 0

def unready : ActorPoint → Bool
  | .startAttach => true
  | .startSubscribe => true
  | .startOpened => true
  | .markFailed _ (.start false) => true
  | _ => false

def past : ActorPoint → Bool
  | .cancelFailed _ => true
  | .settleFailed _ => true
  | .startClose _ => true
  | .startSettle _ => true
  | .cancelDone _ => true
  | .onError _ _ => true
  | .inError _ => true
  | .onDone => true
  | .inDone => true
  | .sinkSettle true => true
  | _ => false

def stopAsked : ActorPoint → Bool
  | .stopClose => true
  | .stopReturned _ => true
  | _ => false

def leaves : ActorPoint → Bool
  | .destroyWait => true
  | .destroyClose => true
  | .destroyCloseRun => true
  | .destroyRuntime => true
  | .destroySettle => true
  | .destroyed => true
  | _ => false

def tears : ActorPoint → Bool
  | .destroyClose => true
  | .destroyCloseRun => true
  | .destroyRuntime => true
  | .destroySettle => true
  | .destroyed => true
  | _ => false

def shuts : ActorPoint → Bool
  | .startSettle _ => true
  | .destroyRuntime => true
  | .destroySettle => true
  | .destroyed => true
  | _ => false

end ActorPoint

namespace RunPhase

def shut : RunPhase → Bool
  | .unopened => true
  | .closed => true
  | _ => false

theorem close_shut (p : RunPhase) : p.close.shut = true := by
  cases p <;> rfl

theorem close_telling (p : RunPhase) : p.close.telling = false := by
  cases p <;> rfl

variable {p : RunPhase}

theorem close_eq_unopened (h : p.close = .unopened) : p = .unopened := by
  cases p <;> first | rfl | cases h

theorem close_ne_live (p : RunPhase) : p.close ≠ .live := by
  cases p <;> exact nofun

theorem shut_telling (h : p.shut = true) : p.telling = false := by
  cases p <;> simp_all [shut, telling]

end RunPhase

variable {r : ActorImpl} {message : Option String}

theorem ActorImpl.markFailed_first (h : r.state.ended = false) :
    (r.markFailed message copied).state = .failed := by
  simp [ActorImpl.markFailed, h]

theorem ActorImpl.markFailed_again (h : r.state.ended = true) :
    (r.markFailed message copied).state = r.state := by
  simp [ActorImpl.markFailed, h]

section Moves

variable {r t : ActorImpl} {p q : ActorPoint} {new : List ActorPoint}

theorem ActorMove.forward (h : ActorMove r p t q new) :
    r.state.rank ≤ t.state.rank ∧ (r.state.ended = true → t.state = r.state) := by
  cases h
  case start h | stopStart h | stopRunning h => simp [h, rank, ended]
  case fails h =>
    rw [markFailed_first h]
    exact ⟨by cases r.state <;> decide,fun he => absurd he (by simp [h])⟩
  case failsAgain h => simp [markFailed_again h]
  case sinkStops h | sinkStopsQuiet h =>
    rcases h with h | h <;> simp [ActorImpl.stopped, h, rank, ended]
  case sinkUnexpected h => simp [ActorImpl.unexpected, h, rank, ended]
  case destroy =>
    cases hs : r.state <;> simp [ActorImpl.makeStale, hs, rank, ended]
  case destroySettle =>
    cases hs : r.state <;> simp [ActorImpl.destroyed, hs, rank, ended]
  all_goals exact ⟨le_rfl,fun _ => rfl⟩

theorem ActorState.stops_iff {s : ActorState} : s.stops = true ↔ 2 ≤ s.rank := by
  cases s <;> simp [stops, rank]

section

variable (h : ActorMove r p t q new)

include h

theorem ActorMove.ended (he : r.state.ended = true) : t.state.ended = true := by
  rw [h.forward.2 he, he]

theorem ActorMove.stops (hs : r.state.stops = true) : t.state.stops = true := by
  rw [stops_iff] at hs ⊢
  exact hs.trans h.forward.1

theorem ActorMove.past (hp : p.past = true → r.state.ended = true) :
    q.past = true → t.state.ended = true := by
  intro hq
  by_cases he : r.state.ended = true
  · exact h.ended he
  have hp' : p.past = false := by
    cases hpp : p.past
    · rfl
    · exact absurd (hp hpp) he
  cases h
  case fails h =>
    rw [markFailed_first h]
    rfl
  case failsAgain h => exact absurd h he
  case refusedStopped h => simp [h, ActorState.ended] at he
  case sinkStops | sinkStopsQuiet => rfl
  case sinkUnexpected => rfl
  case settleFailed => cases hp'
  case sinkNothing => cases hq
  all_goals first | (cases hq; done) | cases hp'

theorem ActorMove.stopAsked (hp : p.stopAsked = true → r.state.stops = true) :
    q.stopAsked = true → t.state.stops = true := by
  intro hq
  cases h
  case stopStart | stopRunning => rfl
  case stopAgain h => exact h
  case stopClose => exact hp rfl
  case failsAgain k h => cases k <;> rename_i b <;> cases b <;> cases hq
  case settleFailed b => cases b <;> cases hq
  all_goals cases hq

end

theorem ActorMove.run_cases (h : ActorMove r p t q new) :
    t.run = r.run ∨ (p = .startSubscribe ∧ t.run = .live) ∨
      (r.run = .live ∧ t.run ≠ .live ∧ t.run ≠ .unopened) ∨
      (∃ e, r.run = .ended e ∧ t.run = .over e) ∨ (r.run.telling = false ∧ t.run = r.run.close) := by
  cases h
  case subscribe => exact .inr (.inl ⟨rfl,rfl⟩)
  case runDone h | runError h | runCancelled h => exact .inr (.inr (.inl ⟨h,nofun,nofun⟩))
  case sinkReturn e h => exact .inr (.inr (.inr (.inl ⟨e,h,rfl⟩)))
  case startClose h | destroyCloseRun h => exact .inr (.inr (.inr (.inr ⟨h,rfl⟩)))
  all_goals exact .inl rfl

theorem ActorMove.starts_le (h : ActorMove r p t q new) :
    (q.starts + load ActorPoint.starts new ≤ p.starts ∧
      q.opening + load ActorPoint.opening new ≤ p.opening) ∨
    (r.state = .start ∧ p = .start ∧ q = .startAttach ∧ new = []) := by
  cases h
  case start h => exact .inr ⟨h,rfl,rfl,rfl⟩
  case fails k _ | failsAgain k _ =>
    rcases k with (_ | _) | _ <;>
      exact .inl (by simp [ActorPoint.starts, ActorPoint.opening, ActorPoint.opened,
        ActorPoint.afterFailed])
  case cancelStart b | settleFailed b => cases b <;> exact .inl (by decide)
  all_goals exact .inl (by simp [ActorPoint.starts, ActorPoint.opening, ActorPoint.opened])

section

variable (h : ActorMove r p t q new)

include h

theorem ActorMove.precall_le : (q.precall + load precall new ≤ p.precall) ∨ r.run = .live := by
  cases h
  case runDone h | runError h => exact .inr h
  case fails k _ | failsAgain k _ =>
    rcases k with (_ | _) | _ <;> exact .inl (by simp [precall, afterFailed])
  case settleFailed b => cases b <;> exact .inl (by decide)
  all_goals exact .inl (by simp [precall])

theorem ActorMove.sinking_balance (ho : p = .startSubscribe → r.run = .unopened) :
    t.run.telling.toNat + p.sinking = r.run.telling.toNat + q.sinking + load sinking new := by
  cases h
  case subscribe => rw [ho rfl]; rfl
  case runDone h | runError h | runCancelled h | sinkReturn h => rw [h]; rfl
  case startClose h | destroyCloseRun h => simp only [RunPhase.close_telling, h]; rfl
  case fails k _ | failsAgain k _ => rcases k with (_ | _) | _ <;> rfl
  case settleFailed b => cases b <;> rfl
  all_goals rfl

theorem ActorMove.calls_cases :
    t.calls = r.calls ∨
      (p.precall = 1 ∧ q.precall = 0 ∧ new = [] ∧ t.run = r.run ∧ ∃ c, t.calls = r.calls ++ [c]) := by
  cases h
  case onError message _ => exact .inr ⟨rfl,rfl,rfl,rfl,_,rfl⟩
  case onDone => exact .inr ⟨rfl,rfl,rfl,rfl,_,rfl⟩
  all_goals exact .inl rfl

theorem ActorMove.waking_balance (hp : p.waking ≤ r.pendingWakes) :
    t.pendingWakes + p.waking = r.pendingWakes + q.waking + load waking new := by
  cases h
  case woken =>
    have h1 : 1 ≤ r.pendingWakes := hp
    show r.pendingWakes-1+1 = r.pendingWakes+0+0
    omega
  case failsAgain k _ => rcases k with (_ | _) | _ <;> rfl
  case settleFailed b => cases b <;> rfl
  all_goals rfl

end

theorem ActorMove.stale (h : ActorMove r p t q new) (hs : r.stale = true) :
    t.stale = true ∧ t.pendingWakes ≤ r.pendingWakes := by
  cases h
  case admitted hf | admitWake hf => simp [hs] at hf
  case woken => exact ⟨hs,Nat.sub_le _ _⟩
  case destroy => exact ⟨rfl,le_rfl⟩
  all_goals exact ⟨hs,le_rfl⟩

theorem ActorMove.leaves (h : ActorMove r p t q new)
    (hp : (p.leaves = true → r.stale = true) ∧ (p.tears = true → r.pendingWakes = 0)) :
    (q.leaves = true → t.stale = true) ∧ (q.tears = true → t.pendingWakes = 0) := by
  cases h
  case destroy => exact ⟨fun _ => rfl,nofun⟩
  case destroyWait h => exact ⟨fun _ => hp.1 rfl,fun _ => h⟩
  case destroyClose | destroyCloseRun | destroyRuntime | destroySettle =>
    exact ⟨fun _ => hp.1 rfl,fun _ => hp.2 rfl⟩
  case failsAgain k _ => rcases k with (_ | _) | _ <;> exact ⟨nofun,nofun⟩
  case settleFailed b => cases b <;> exact ⟨nofun,nofun⟩
  all_goals exact ⟨nofun,nofun⟩

end Moves

structure ActorInv (s : ActorSystem) : Prop where
  one : load starts s.threads ≤ 1
  fresh : s.shared.state = .start → load starts s.threads = 0 ∧ s.shared.run = .unopened
  unopened : 0 < load opening s.threads → s.shared.run = .unopened
  telling : s.shared.run.telling.toNat = load sinking s.threads
  silent : s.shared.run = .unopened ∨ s.shared.run = .live ∨ 0 < load precall s.threads →
    s.shared.calls = []
  once : s.shared.calls.length ≤ 1
  wakes : s.shared.pendingWakes = load waking s.threads
  past : ∀ p ∈ s.threads, p.past = true → s.shared.state.ended = true
  asked : ∀ p ∈ s.threads, p.stopAsked = true → s.shared.state.stops = true
  torn : ∀ p ∈ s.threads, (p.leaves = true → s.shared.stale = true) ∧
    (p.tears = true → s.shared.pendingWakes = 0)

namespace ActorInv

variable {s : ActorSystem} {t : ActorImpl} {p q : ActorPoint} {new : List ActorPoint} {i : Nat}

theorem ready (h : ActorReady s) : ActorInv s := by
  obtain ⟨shared,threads⟩ := s
  obtain ⟨rfl,runtime,onError,onDone,rfl⟩ := h
  constructor <;> simp [RunPhase.telling]

theorem opening_le (threads : List ActorPoint) : load opening threads ≤ load starts threads :=
  load_le_load fun _ _ => Nat.le_add_right _ _

theorem sinks_sum (threads : List ActorPoint) : load sinking threads =
    load precall threads + load inCallback threads + load postcall threads := by
  rw [← load_add, ← load_add]
  rfl

theorem sinks_le (h : ActorInv s) :
    load precall s.threads + load inCallback s.threads + load postcall s.threads ≤ 1 := by
  have ht := h.telling
  have hle := Bool.toNat_le s.shared.run.telling
  have hsum := sinks_sum s.threads
  omega

section

variable (h : ActorInv s)

include h

theorem subscribing (hp : p ∈ s.threads) (ho : p.opening = 1) : s.shared.run = .unopened := by
  refine h.unopened ?_
  have := weight_le_load (w := opening) hp
  omega

section

variable (hp : s.threads[i]? = some p)

include hp

section

variable (hm : ActorMove s.shared p t q new)

include hm

theorem move_start :
    load starts (s.threads.set i q ++ new) ≤ 1 ∧
    (t.state = .start → load starts (s.threads.set i q ++ new) = 0 ∧ t.run = .unopened) := by
  have hl := load_step (w := starts) q new hp
  have hone := h.one
  have hmem := List.mem_of_getElem? hp
  rcases hm.starts_le with ⟨hle,-⟩ | ⟨hs,rfl,rfl,rfl⟩
  · refine ⟨by omega,fun ht => ?_⟩
    have hs : s.shared.state = .start := by
      have := hm.forward.1
      cases hs : s.shared.state <;> simp_all [rank]
    obtain ⟨hzero,hrun⟩ := h.fresh hs
    refine ⟨by omega,?_⟩
    rcases hm.run_cases with heq | ⟨rfl,-⟩ | ⟨hlive,-⟩ | ⟨e,he,-⟩ | ⟨-,heq⟩
    · rw [heq, hrun]
    · have := weight_le_load (w := starts) hmem
      simp only [starts, opening] at this
      omega
    · simp [hrun] at hlive
    · simp [hrun] at he
    · rw [heq, hrun]
      rfl
  · have hzero := (h.fresh hs).1
    cases hm with
    | start _ =>
      refine ⟨?_,nofun⟩
      rw [show (startAttach).starts = 1 from rfl, load_nil] at hl
      omega

theorem move_unopened (ho : 0 < load opening (s.threads.set i q ++ new)) : t.run = .unopened := by
  have hl := load_step (w := opening) q new hp
  rcases hm.starts_le with ⟨-,hle⟩ | ⟨hs,rfl,rfl,rfl⟩
  · have hrun := h.unopened (by omega)
    rcases hm.run_cases with heq | ⟨rfl,-⟩ | ⟨hlive,-⟩ | ⟨e,he,-⟩ | ⟨-,heq⟩
    · rw [heq, hrun]
    · cases hm
      case subscribe =>
        have h1 := opening_le s.threads
        have h2 := h.one
        rw [show (startOpened).opening = 0 from rfl,
          show (startSubscribe).opening = 1 from rfl, load_cons, load_nil,
          show (pump).opening = 0 from rfl] at hl
        omega
      case subscribeFails => exact hrun
    · simp [hrun] at hlive
    · simp [hrun] at he
    · rw [heq, hrun]
      rfl
  · have hrun := (h.fresh hs).2
    cases hm
    exact hrun

theorem move_calls :
    (t.run = .unopened ∨ t.run = .live ∨
      0 < load precall (s.threads.set i q ++ new) → t.calls = []) ∧
    t.calls.length ≤ 1 := by
  have hmem := List.mem_of_getElem? hp
  have hl := load_step (w := precall) q new hp
  have hsinks := h.sinks_le
  rcases hm.calls_cases with heq | ⟨hpre,hq,rfl,hrun,c,heq⟩
  · rw [heq]
    refine ⟨fun hcase => h.silent ?_,h.once⟩
    rcases hcase with hun | hlive | hpre
    · rcases hm.run_cases with hr | ⟨-,hr⟩ | ⟨-,-,hr⟩ | ⟨e,-,hr⟩ | ⟨-,hr⟩
      · exact .inl (hr.symm.trans hun)
      · simp [hun] at hr
      · exact absurd hun hr
      · simp [hun] at hr
      · exact .inl (RunPhase.close_eq_unopened (hr.symm.trans hun))
    · rcases hm.run_cases with hr | ⟨rfl,-⟩ | ⟨hr,-⟩ | ⟨e,-,hr⟩ | ⟨-,hr⟩
      · exact .inr (.inl (hr.symm.trans hlive))
      · exact .inl (h.subscribing hmem rfl)
      · exact .inr (.inl hr)
      · simp [hlive] at hr
      · exact absurd (hr.symm.trans hlive) (RunPhase.close_ne_live _)
    · rcases hm.precall_le with hle | hr
      · exact .inr (.inr (by omega))
      · exact .inr (.inl hr)
  · -- the sink that calls is the only one, and its run has ended
    have hw := weight_le_load (w := precall) hmem
    have hcalls : s.shared.calls = [] := h.silent (.inr (.inr (by omega)))
    refine ⟨fun hcase => ?_,by simp [heq, hcalls]⟩
    have htell := h.telling
    have hsum := weight_le_load (w := sinking) hmem
    have hsink : 1 ≤ p.sinking := by
      rw [sinking]
      omega
    rw [hrun] at hcase
    rcases hcase with hr | hr | hr
    · rw [hr] at htell
      simp only [RunPhase.telling, Bool.toNat_false] at htell
      omega
    · rw [hr] at htell
      simp only [RunPhase.telling, Bool.toNat_false] at htell
      omega
    · simp only [load_nil] at hl
      omega

theorem move : ActorInv { shared := t, threads := s.threads.set i q ++ new } := by
  have hmem := List.mem_of_getElem? hp
  have hnew : ∀ x ∈ new, x = .pump := by cases hm <;> simp
  obtain ⟨hone,hfresh⟩ := h.move_start hp hm
  obtain ⟨hsilent,honce⟩ := h.move_calls hp hm
  refine ⟨hone,hfresh,h.move_unopened hp hm,?_,hsilent,honce,?_,?_,?_,?_⟩
  · refine balanced_move (f := fun r : ActorImpl => r.run.telling.toNat) h.telling hp
      (hm.sinking_balance ?_)
    rintro rfl
    exact h.subscribing hmem rfl
  · refine balanced_move h.wakes hp (hm.waking_balance ?_)
    rw [h.wakes]
    exact weight_le_load hmem
  · refine forall_move (T := fun (r : ActorImpl) (p : ActorPoint) =>
      p.past = true → r.state.ended = true) h.past (hm.past (h.past p hmem)) ?_ ?_
    · intro x hx
      rw [hnew x hx]
      exact nofun
    · exact fun _ x _ _ hx hpast => hm.ended (hx hpast)
  · refine forall_move (T := fun (r : ActorImpl) (p : ActorPoint) =>
      p.stopAsked = true → r.state.stops = true) h.asked (hm.stopAsked (h.asked p hmem)) ?_ ?_
    · intro x hx
      rw [hnew x hx]
      exact nofun
    · exact fun _ x _ _ hx hasked => hm.stops (hx hasked)
  · refine forall_move (T := fun (r : ActorImpl) (p : ActorPoint) =>
      (p.leaves = true → r.stale = true) ∧ (p.tears = true → r.pendingWakes = 0)) h.torn
      (hm.leaves (h.torn p hmem)) ?_ ?_
    · intro x hx
      rw [hnew x hx]
      exact ⟨nofun,nofun⟩
    · intro _ x _ _ hx
      refine ⟨fun hl => (hm.stale (hx.1 hl)).1,fun ht => ?_⟩
      have hstale : s.shared.stale = true := hx.1 (by cases x <;> first | rfl | cases ht)
      exact Nat.le_zero.1 ((hm.stale hstale).2.trans (hx.2 ht).le)

end

end

theorem enter (hp : p.entry = true) :
    ActorInv { shared := s.shared, threads := s.threads ++ [p] } := by
  have hw : p.starts = 0 ∧ p.opening = 0 ∧ p.sinking = 0 ∧ p.precall = 0 ∧ p.waking = 0 ∧
      p.past = false ∧ p.stopAsked = false ∧ p.leaves = false ∧ p.tears = false := by
    cases p <;> first
      | (cases hp; done)
      | exact ⟨rfl,rfl,rfl,rfl,rfl,rfl,rfl,rfl,rfl⟩
  obtain ⟨h1,h2,h3,h4,h5,h6,h7,h8,h9⟩ := hw
  constructor
  · simpa [h1] using h.one
  · simpa [h1] using h.fresh
  · simpa [h2] using h.unopened
  · simpa [h3] using h.telling
  · simpa [h4] using h.silent
  · exact h.once
  · simpa [h5] using h.wakes
  · simpa [or_imp, forall_and, h6] using h.past
  · simpa [or_imp, forall_and, h7] using h.asked
  · simpa [or_imp, forall_and, h8, h9] using h.torn

end

end ActorInv

end Salts.CFlow
