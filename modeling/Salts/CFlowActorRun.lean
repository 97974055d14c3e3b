import Salts.CFlowActorMove

/-!
The lifecycle of an actor over whole runs.  A wait returns behind the user's terminal callback as
long as no start finds its demand refused by a run whose end the actor has not seen: that start
settles the failure itself, while the run may still be about to call `on_error`.
-/

namespace Salts.CFlow

open ThreadPool ActorImpl Transition
open ActorPoint
open ActorState (ended rank stops)

namespace ActorPoint

def announced : ActorPoint → Bool
  | .startRequest => true
  | .startPump => true
  | .startRefused => true
  | .markFailed _ (.start true) => true
  | _ => false

theorem starts_cases (p : ActorPoint) (h : 0 < p.starts) :
    p.announced = true ∨ p.unready = true ∨ p.past = true := by
  rcases p with _ | _ | _ | _ | _ | _ | _ | _ | _ | _ | ⟨_,(_ | _) | _⟩ | ⟨(_ | _) | _⟩ | (_ | _) | _ <;>
    first
      | exact absurd h (Nat.lt_irrefl 0)
      | exact .inl rfl
      | exact .inr (.inl rfl)
      | exact .inr (.inr rfl)

def Late (r : ActorImpl) : ActorPoint → Prop
  | .markFailed _ (.start true) => r.state.ended = true
  | .cancelFailed (.start true) => False
  | .settleFailed true => False
  | _ => True

end ActorPoint

/-- The owner has to serialize `cflow_actor_destroy`: it begins once, and with no start under
way. -/
def unserialized (s : ActorSystem) : ActorPoint → Bool
  | .destroy => s.shared.stale || decide (0 < load starts s.threads)
  | _ => false

def hasty (s : ActorSystem) : ActorPoint → Bool
  | .startRefused => !s.shared.state.ended
  | _ => false

def Serialized (s : ActorSystem) (a : ActorAction) : Prop := avoids unserialized s a

instance (s : ActorSystem) (a : ActorAction) : Decidable (Serialized s a) :=
  inferInstanceAs (Decidable (avoids _ _ _))

def Orderly (s : ActorSystem) (a : ActorAction) : Prop := Serialized s a ∧ avoids hasty s a

instance (s : ActorSystem) (a : ActorAction) : Decidable (Orderly s a) :=
  inferInstanceAs (Decidable (_ ∧ _))

section Moves

variable {r t : ActorImpl} {p q : ActorPoint} {new : List ActorPoint}

section

variable (h : ActorMove r p t q new)

include h

theorem ActorMove.settled_mono (hs : r.terminalSettled = true)
    (he : r.state.ended = true) : t.terminalSettled = true := by
  cases h
  case fails h => simp [he] at h
  case failsAgain h => simp [ActorImpl.markFailed, hs, h]
  case sinkStops h | sinkStopsQuiet h => rcases h with h | h <;> simp [h, ActorState.ended] at he
  case sinkUnexpected h => simp [h, ActorState.ended] at he
  all_goals first | exact hs | rfl

/-- Who settles the actor: a request_stop before the start, a start or a destroy behind its close,
the sink behind its callback, or a start that has failed. -/
theorem ActorMove.settles (ht : t.terminalSettled = true)
    (hp : p.past = true → r.state.ended = true) :
    r.terminalSettled = true ∨
      (t.state.ended = true ∧ t.run = r.run ∧ new = [] ∧ q.opening = 0 ∧ q.precall = 0 ∧
        q.inCallback = 0 ∧ (r.state = .start ∨ p.shuts = true ∨ p.postcall = 1 ∨
          p = .settleFailed false ∨ p = .settleFailed true)) := by
  cases h
  case stopStart h => exact .inr ⟨rfl,rfl,rfl,rfl,rfl,rfl,.inl h⟩
  case startSettle => exact .inr ⟨hp rfl,rfl,rfl,rfl,rfl,rfl,.inr (.inl rfl)⟩
  case destroySettle =>
    refine .inr ⟨?_,rfl,rfl,rfl,rfl,rfl,.inr (.inl rfl)⟩
    cases hs : r.state <;> simp [ActorImpl.destroyed, hs, ActorState.ended]
  case sinkSettle => exact .inr ⟨hp rfl,rfl,rfl,rfl,rfl,rfl,.inr (.inr (.inl rfl))⟩
  case settleFailed b => cases b <;> exact .inr ⟨hp rfl,rfl,rfl,rfl,rfl,rfl,by simp⟩
  case fails h => simp [ActorImpl.markFailed, h] at ht
  case failsAgain h => exact .inl (by simpa [ActorImpl.markFailed, h] using ht)
  case sinkStops | sinkStopsQuiet | sinkUnexpected => cases ht
  all_goals exact .inl ht

theorem ActorMove.inCallback_le :
    q.inCallback + load inCallback new ≤ p.inCallback + p.precall := by
  cases h
  case fails k _ | failsAgain k _ =>
    rcases k with (_ | _) | _ <;>
      simp [inCallback, afterFailed]
  case settleFailed b => cases b <;> decide
  all_goals simp [inCallback, precall]

theorem ActorMove.late (hp : p.Late r)
    (hr : p = .startRefused → r.state.ended = true) : q.Late t := by
  cases h
  case refused => exact hr rfl
  case fails k he =>
    rcases k with (_ | _) | _
    · exact trivial
    · exact absurd hp (by simp [ActorPoint.Late, he])
    · exact trivial
  case failsAgain k _ => rcases k with (_ | _) | _ <;> exact trivial
  case cancelStart b =>
    cases b
    · exact trivial
    · exact hp
  case settleFailed b => cases b <;> exact trivial
  all_goals exact trivial

end

theorem ActorPoint.Late.keep (hp : p.Late r) (h : r.state.ended = true → t.state.ended = true) :
    p.Late t := by
  rcases p with _ | _ | _ | _ | _ | _ | _ | _ | _ | _ | ⟨_,(_ | _) | _⟩ | ⟨(_ | _) | _⟩ | (_ | _) | _ <;>
    first | exact hp | exact h hp

section

variable (h : ActorMove r p t q new)

include h

theorem ActorMove.unready (hp : p.unready = true → r.starting = true ∨ r.state.ended = true) :
    q.unready = true → t.starting = true ∨ t.state.ended = true := by
  intro hq
  cases h
  case start => exact .inl rfl
  case attach | attachFails | subscribe | subscribeFails => exact hp rfl
  case failsAgain k _ => rcases k with (_ | _) | _ <;> cases hq
  case settleFailed b => cases b <;> cases hq
  all_goals cases hq

theorem ActorMove.starting (hs : r.starting = true) :
    t.starting = true ∨ t.state.ended = true ∨ p = .startOpened := by
  cases h
  case opened => exact .inr (.inr rfl)
  case fails h => exact .inr (.inl (by rw [markFailed_first h]; rfl))
  case failsAgain h => exact .inr (.inl (by rw [markFailed_again h, h]))
  case start => exact .inl rfl
  all_goals exact .inl hs

theorem ActorMove.start_returns (hp : p.starts ≠ 0) (hq : q.starts = 0)
    (hpast : p.past = true → r.state.ended = true) :
    q = .startReturned .ok ∨ t.state.ended = true := by
  cases h
  case pumped => exact .inl rfl
  case startSettle | settleFailed => exact .inr (hpast rfl)
  case failsAgain h => exact .inr (by rw [markFailed_again h, h])
  case fails k _ => rcases k with (_ | _) | _ <;> first | (cases hq; done) | exact absurd rfl hp
  case cancelStart b => cases b <;> cases hq
  all_goals first | (cases hq; done) | exact absurd rfl hp

theorem ActorMove.shuts (hp : p.shuts = true → r.run.shut = true) :
    q.shuts = true → t.run.shut = true := by
  intro hq
  cases h
  case startClose | destroyCloseRun => exact RunPhase.close_shut _
  case destroyRuntime | destroySettle => exact hp rfl
  case failsAgain k _ => rcases k with (_ | _) | _ <;> cases hq
  case settleFailed b => cases b <;> cases hq
  all_goals cases hq

theorem ActorMove.waited {st : ActorState} (hq : q = .waitReturned st) :
    r.state.ended = true ∧ r.terminalSettled = true ∧ st = r.state := by
  cases h
  case wait hs ht =>
    cases hq
    exact ⟨hs,ht,rfl⟩
  case failsAgain k _ => rcases k with (_ | _) | _ <;> cases hq
  case settleFailed b => cases b <;> cases hq
  all_goals cases hq

end

end Moves

structure SettledInv (s : ActorSystem) : Prop where
  stale : s.shared.stale = true → load starts s.threads = 0 ∧ s.shared.state ≠ .start
  shut : ∀ p ∈ s.threads, p.shuts = true → s.shared.run.shut = true
  late : ∀ p ∈ s.threads, p.Late s.shared
  settled : s.shared.terminalSettled = true → s.shared.state.ended = true ∧ s.shared.run ≠ .live ∧
    load opening s.threads = 0 ∧ load precall s.threads = 0 ∧
    load inCallback s.threads = 0
  waited : ∀ p ∈ s.threads, ∀ st, p = .waitReturned st →
    s.shared.terminalSettled = true ∧ st = s.shared.state
  unready : ∀ p ∈ s.threads, p.unready = true → s.shared.starting = true ∨
    s.shared.state.ended = true
  started : s.shared.state = .running → 0 < load starts s.threads ∨ .startReturned .ok ∈ s.threads

namespace SettledInv

variable {s : ActorSystem} {t : ActorImpl} {p q : ActorPoint} {new : List ActorPoint} {i : Nat}

theorem ready (h : ActorReady s) : SettledInv s := by
  obtain ⟨shared,threads⟩ := s
  obtain ⟨rfl,runtime,onError,onDone,rfl⟩ := h
  constructor <;> simp

section

variable (h : SettledInv s) (hi : ActorInv s)

include h hi

theorem settler_quiet (hmem : p ∈ s.threads)
    (hwho : s.shared.state = .start ∨ p.shuts = true ∨ p.postcall = 1 ∨ p = .settleFailed false ∨
      p = .settleFailed true) :
    s.shared.run ≠ .live ∧ load opening s.threads ≤ p.opening ∧
      load precall s.threads = 0 ∧ load inCallback s.threads = 0 := by
  have hle := ActorInv.opening_le s.threads
  have hone := hi.one
  have hsinks := hi.sinks_le
  have hquiet : s.shared.run.telling = false → load precall s.threads = 0 ∧
      load inCallback s.threads = 0 := by
    intro ht
    have htell := hi.telling
    have hsum := ActorInv.sinks_sum s.threads
    rw [ht, Bool.toNat_false] at htell
    omega
  rcases hwho with hs | hshut | hpost | rfl | rfl
  · obtain ⟨hzero,hrun⟩ := hi.fresh hs
    obtain ⟨h1,h2⟩ := hquiet (by rw [hrun]; rfl)
    exact ⟨by simp [hrun],by omega,h1,h2⟩
  · have hrun := h.shut p hmem hshut
    obtain ⟨h1,h2⟩ := hquiet (RunPhase.shut_telling hrun)
    refine ⟨fun hl => by simp [hl, RunPhase.shut] at hrun,?_,h1,h2⟩
    by_cases hstale : s.shared.stale = true
    · have := (h.stale hstale).1
      omega
    · -- a start: the only one in progress
      have hstart : p.starts = 1 ∧ p.opening = 0 := by
        cases p <;> first
          | (cases hshut; done)
          | exact ⟨rfl,rfl⟩
          | exact absurd ((hi.torn _ hmem).1 rfl) hstale
      have hsum : load starts s.threads = load opening s.threads + load opened s.threads := load_add
      have hopened := weight_le_load (w := opened) hmem
      have : p.opened = 1 := by
        have := hstart.1
        rw [starts] at this
        omega
      omega
  · have hw := weight_le_load (w := postcall) hmem
    have htell := hi.telling
    have hsum := ActorInv.sinks_sum s.threads
    have hrun : s.shared.run.telling = true := by
      cases ht : s.shared.run.telling
      · simp only [ht, Bool.toNat_false] at htell
        omega
      · rfl
    refine ⟨fun hl => by simp [hl, RunPhase.telling] at hrun,?_,by omega,by omega⟩
    by_contra hne
    have := hi.unopened (by omega)
    simp [this, RunPhase.telling] at hrun
  · have hrun := hi.subscribing hmem rfl
    obtain ⟨h1,h2⟩ := hquiet (by rw [hrun]; rfl)
    refine ⟨by simp [hrun],?_,h1,h2⟩
    show _ ≤ 1
    omega
  · exact absurd (h.late _ hmem) id

theorem move_settled (hp : s.threads[i]? = some p) (hm : ActorMove s.shared p t q new)
    (ht : t.terminalSettled = true) :
    t.state.ended = true ∧ t.run ≠ .live ∧
      load opening (s.threads.set i q ++ new) = 0 ∧
      load precall (s.threads.set i q ++ new) = 0 ∧
      load inCallback (s.threads.set i q ++ new) = 0 := by
  have hmem := List.mem_of_getElem? hp
  have ho := load_step (w := opening) q new hp
  have hpre := load_step (w := precall) q new hp
  have hin := load_step (w := inCallback) q new hp
  have hwo := weight_le_load (w := opening) hmem
  have hwp := weight_le_load (w := precall) hmem
  rcases hm.settles ht (hi.past p hmem) with hs | ⟨hend,hrun,rfl,hqo,hqp,hqi,hwho⟩
  · -- settled before: nothing can open the run, end it or call back
    obtain ⟨hend,hlive,hopen,hzero,hback⟩ := h.settled hs
    have hle : q.opening+load opening new ≤ p.opening := by
      rcases hm.starts_le with ⟨-,hle⟩ | ⟨hstart,-⟩
      · exact hle
      · simp [hstart, ended] at hend
    have hcall := hm.precall_le.resolve_right hlive
    have hback' := hm.inCallback_le
    refine ⟨hm.ended hend,?_,by omega,by omega,by omega⟩
    rcases hm.run_cases with heq | ⟨rfl,-⟩ | ⟨hr,-⟩ | ⟨e,-,hr⟩ | ⟨-,hr⟩
    · rwa [heq]
    · simp only [opening] at hwo
      omega
    · exact absurd hr hlive
    · simp [hr]
    · rw [hr]
      exact RunPhase.close_ne_live _
  · obtain ⟨hlive,hopen,hzero,hback⟩ := h.settler_quiet hi hmem hwho
    rw [load_nil] at ho hpre hin
    exact ⟨hend,hrun ▸ hlive,by omega,by omega,by omega⟩

theorem move_started (hp : s.threads[i]? = some p) (hm : ActorMove s.shared p t q new)
    (ht : t.state = .running) :
    0 < load starts (s.threads.set i q ++ new) ∨ .startReturned .ok ∈ s.threads.set i q ++ new := by
  have hmem := List.mem_of_getElem? hp
  have hl := load_step (w := starts) q new hp
  by_cases hq : q.starts = 0
  case neg =>
    have hin : q ∈ s.threads.set i q ++ new := mem_moved hp
    have := weight_le_load (w := starts) hin
    exact .inl (by omega)
  by_cases hps : p.starts = 0
  case neg =>
    rcases hm.start_returns hps hq (hi.past p hmem) with rfl | hend
    · exact .inr (mem_moved hp)
    · simp [ht, ended] at hend
  have hrun : s.shared.state = .running := by
    cases hm
    case start => simp [starts, opening] at hq
    case fails h => simp [markFailed_first h] at ht
    case failsAgain h => rwa [markFailed_again h] at ht
    case stopStart | stopRunning | sinkStops | sinkStopsQuiet | sinkUnexpected => cases ht
    case destroy =>
      simp only [ActorImpl.makeStale] at ht
      cases hs : s.shared.state <;> simp_all
    case destroySettle =>
      simp only [ActorImpl.destroyed] at ht
      split_ifs at ht
    all_goals exact ht
  rcases h.started hrun with hpos | hret
  · exact .inl (by omega)
  · refine .inr (mem_stays hret hp ?_)
    rintro rfl
    cases hm

theorem move (hp : s.threads[i]? = some p) (hser : unserialized s p = false)
    (hasty : hasty s p = false) (hm : ActorMove s.shared p t q new) :
    SettledInv { shared := t, threads := s.threads.set i q ++ new } := by
  have hmem := List.mem_of_getElem? hp
  have hnew : ∀ x ∈ new, x = .pump := by cases hm <;> simp
  have hl := load_step (w := starts) q new hp
  refine ⟨?_,?_,?_,h.move_settled hi hp hm,?_,?_,h.move_started hi hp hm⟩
  · -- destroy begins with no start in progress, and none can begin afterwards
    intro hstale
    have hold : load starts s.threads = 0 ∧ t.state ≠ .start ∧
        (s.shared.state = .start → p ≠ .start) := by
      by_cases hs : s.shared.stale = true
      · obtain ⟨hzero,hne⟩ := h.stale hs
        refine ⟨hzero,fun ht => hne ?_,fun he => absurd he hne⟩
        have := hm.forward.1
        cases hst : s.shared.state <;> simp_all [rank]
      · cases hm
        case destroy =>
          simp only [unserialized, Bool.or_eq_false_iff, decide_eq_false_iff_not] at hser
          refine ⟨by omega,?_,fun _ => (by simp)⟩
          cases hst : s.shared.state <;> simp [ActorImpl.makeStale, hst]
        all_goals exact absurd hstale hs
    obtain ⟨hzero,hne,hfirst⟩ := hold
    rcases hm.starts_le with ⟨hle,-⟩ | ⟨hs,hstart,-⟩
    · refine ⟨?_,hne⟩
      show load starts (s.threads.set i q ++ new) = 0
      omega
    · exact absurd hstart (hfirst hs)
  · refine forall_move (T := fun (r : ActorImpl) (p : ActorPoint) =>
      p.shuts = true → r.run.shut = true) h.shut (hm.shuts (h.shut p hmem)) ?_ ?_
    · intro x hx
      rw [hnew x hx]
      rintro ⟨⟩
    · intro j x hij hj hx hshut
      have hrun := hx hshut
      rcases hm.run_cases with heq | ⟨rfl,-⟩ | ⟨hr,-⟩ | ⟨e,hr,-⟩ | ⟨-,hr⟩
      · rw [heq, hrun]
      · -- the run is opened by the only start, and not behind a destroy
        have hpair := weight_add_le_load (w := starts) hp hj (Ne.symm hij)
        have hone := hi.one
        have hsub : (startSubscribe).starts = 1 := rfl
        by_cases hs : x.starts = 0
        · have hst : s.shared.stale = true := by
            refine (hi.torn x (List.mem_of_getElem? hj)).1 ?_
            cases x <;> first | (cases hshut; done) | rfl | cases hs
          have := (h.stale hst).1
          omega
        · omega
      · simp [hr, RunPhase.shut] at hrun
      · simp [hr, RunPhase.shut] at hrun
      · rw [hr]
        exact RunPhase.close_shut _
  · refine forall_move h.late
      (hm.late (h.late p hmem) ?_) ?_ fun _ x _ _ hx => hx.keep hm.ended
    · rintro rfl
      simpa [CFlow.hasty] using hasty
    · intro x hx
      rw [hnew x hx]
      exact trivial
  · refine forall_move (T := fun (r : ActorImpl) (p : ActorPoint) => ∀ st, p = .waitReturned st →
      r.terminalSettled = true ∧ st = r.state) h.waited ?_ ?_ ?_
    · intro st hq
      obtain ⟨hend,hset,rfl⟩ := hm.waited hq
      exact ⟨hm.settled_mono hset hend,(hm.forward.2 hend).symm⟩
    · intro x hx
      rw [hnew x hx]
      simp
    · intro _ x _ _ hx st hst
      obtain ⟨hset,rfl⟩ := hx st hst
      have hend := (h.settled hset).1
      exact ⟨hm.settled_mono hset hend,(hm.forward.2 hend).symm⟩
  · refine forall_move (T := fun (r : ActorImpl) (p : ActorPoint) => p.unready = true →
      r.starting = true ∨ r.state.ended = true) h.unready (hm.unready (h.unready p hmem)) ?_ ?_
    · intro x hx
      rw [hnew x hx]
      rintro ⟨⟩
    · intro j x hij hj hx hun
      rcases hx hun with hstart | hend
      · rcases hm.starting hstart with hstart | hend | rfl
        · exact .inl hstart
        · exact .inr hend
        -- the start that clears the flag is the only one
        have hpair := weight_add_le_load (w := starts) hp hj (Ne.symm hij)
        have hone := hi.one
        have hx1 : x.starts = 1 := by
          rcases x with _ | _ | _ | _ | _ | _ | _ | _ | _ | _ | ⟨_,(_ | _) | _⟩ | _ <;>
            first | (cases hun; done) | rfl
        have hp1 : (startOpened).starts = 1 := rfl
        omega
      · exact .inr (hm.ended hend)

end

theorem enter (h : SettledInv s) (hp : p.entry = true) :
    SettledInv { shared := s.shared, threads := s.threads ++ [p] } := by
  have hw : p.starts = 0 ∧ p.opening = 0 ∧ p.precall = 0 ∧ p.inCallback = 0 ∧ p.shuts = false ∧
      p.Late s.shared ∧ (∀ st, p ≠ .waitReturned st) ∧ p.unready = false := by
    cases p <;> first
      | (cases hp; done)
      | exact ⟨rfl,rfl,rfl,rfl,rfl,trivial,nofun,rfl⟩
  obtain ⟨h1,h2,h3,h4,h5,h6,h7,h8⟩ := hw
  constructor
  · simpa [h1] using h.stale
  · simpa [or_imp, forall_and, h5] using h.shut
  · simpa [or_imp, forall_and, h6] using h.late
  · simpa [h2, h3, h4] using h.settled
  · simpa [or_imp, forall_and, h7] using h.waited
  · simpa [or_imp, forall_and, h8] using h.unready
  · intro hr
    refine (h.started hr).imp (fun h0 => ?_) fun h0 => List.mem_append_left _ h0
    simpa [h1] using h0

end SettledInv

variable {s t : ActorSystem}

theorem actor_invariants (h : Reach actorStep ActorReady Orderly s) :
    ActorInv s ∧ SettledInv s := by
  refine h.invariant (I := fun s => ActorInv s ∧ SettledInv s)
    (fun s hs => ⟨.ready hs,.ready hs⟩) ?_
  rintro s a u ⟨hi,hc⟩ ⟨hser,hhasty⟩ hs
  rcases step_cases hs with ⟨i,c,p,t,q,new,rfl,hp,hm,rfl⟩ | ⟨p,rfl,hp,rfl⟩
  · have hm' := ActorMove.of_move hm
    exact ⟨hi.move hp hm',hc.move hi hp (avoids_run hser hp) (avoids_run hhasty hp) hm'⟩
  · exact ⟨hi.enter hp,hc.enter hp⟩

theorem actorStep_forward {a : ActorAction} (h : actorStep s a = some t) :
    s.shared.state.rank ≤ t.shared.state.rank ∧
      (s.shared.state.ended = true → t.shared.state = s.shared.state) := by
  rcases step_cases h with ⟨i,c,p,u,q,new,-,hp,hm,rfl⟩ | ⟨p,-,hp,rfl⟩
  · exact (ActorMove.of_move hm).forward
  · exact ⟨le_rfl,fun _ => rfl⟩

theorem reach_forward {ok : ActorSystem → ActorAction → Prop}
    (h : Reach actorStep (· = s) ok t) : s.shared.state.rank ≤ t.shared.state.rank ∧
      (s.shared.state.ended = true → t.shared.state = s.shared.state) := by
  refine h.invariant (I := fun t => s.shared.state.rank ≤ t.shared.state.rank ∧
    (s.shared.state.ended = true → t.shared.state = s.shared.state)) ?_ ?_
  · rintro _ rfl
    exact ⟨le_rfl,fun _ => rfl⟩
  · rintro t a u ⟨hle,hkeep⟩ - hstep
    obtain ⟨hle',hkeep'⟩ := actorStep_forward hstep
    refine ⟨hle.trans hle',fun he => ?_⟩
    rw [hkeep' (by rw [hkeep he, he]), hkeep he]

def ActorSystem.accepted (s : ActorSystem) (i : Nat) : Prop :=
  s.threads[i]? = some (.sent .accepted) ∨ s.threads[i]? = some (.sendWake .accepted)

/-- The lifecycle of an actor, seen from one state of a run: what follows it moves the state
forward; the user has had at most one terminal callback; a wait that has returned found the state
that stays, with no terminal callback running; a send accepted now comes before any stop was
requested, and behind the return of start unless it falls into a start that is announced; and a
destroy that goes on to tear the runtime down has no detached wake running. -/
structure ActorLifecycle (s : ActorSystem) : Prop where
  forward : ∀ t, Reach actorStep (· = s) anyAction t →
    s.shared.state.rank ≤ t.shared.state.rank ∧
      (s.shared.state.ended = true → t.shared.state = s.shared.state)
  once : s.shared.calls.length ≤ 1
  waits : ∀ st, .waitReturned st ∈ s.threads →
    st = s.shared.state ∧ st.ended = true ∧ ∀ p ∈ s.threads, p.inCallback = 0
  sends : ∀ i c valid t, s.threads[i]? = some (.send valid) → actorStep s (.run i c) = some t →
    ActorSystem.accepted t i → (∀ p ∈ s.threads, p.stopAsked = false) ∧
      ((∀ p ∈ s.threads, p.announced = false) → .startReturned .ok ∈ s.threads)
  teardown : ∀ p ∈ s.threads, p.tears = true → ∀ result, .sendWake result ∉ s.threads

theorem SettledInv.announced {p : ActorPoint} (h : SettledInv s)
    (hi : ActorInv s) (hp : p ∈ s.threads) (hs : 0 < p.starts) (hr : s.shared.state = .running)
    (hn : s.shared.starting = false) : p.announced = true := by
  rcases p.starts_cases hs with ha | hun | hpast
  · exact ha
  · simpa [hr, hn, ended] using h.unready p hp hun
  · simpa [hr, ended] using hi.past p hp hpast

/-- Every orderly run of an actor keeps its lifecycle. -/
theorem actor_lifecycle (s : ActorSystem) (h : Reach actorStep ActorReady Orderly s) :
    ActorLifecycle s := by
  obtain ⟨hi,hc⟩ := actor_invariants h
  refine ⟨fun t ht => reach_forward ht,hi.once,?_,?_,?_⟩
  · intro st hst
    obtain ⟨hset,rfl⟩ := hc.waited _ hst st rfl
    obtain ⟨hend,-,-,-,hback⟩ := hc.settled hset
    refine ⟨rfl,hend,fun p hp => ?_⟩
    have := weight_le_load (w := inCallback) hp
    omega
  · intro i c valid t hsend hstep hacc
    rcases step_cases hstep with ⟨j,d,p,u,q,new,heq,hp,hm,rfl⟩ | ⟨p,heq,-⟩
    · obtain ⟨rfl,rfl⟩ : i = j ∧ c = d := by cases heq; exact ⟨rfl,rfl⟩
      obtain rfl : p = .send valid := Option.some.inj (hp.symm.trans hsend)
      have hgate : s.shared.state = .running ∧ s.shared.starting = false := by
        have hi' : i < s.threads.length := (List.getElem?_eq_some_iff.1 hp).1
        have hq : q = .sent .accepted ∨ q = .sendWake .accepted := by
          simpa [ActorSystem.accepted, List.getElem?_append, hi'] using hacc
        cases ActorMove.of_move hm with
        | turnedAway valid a b c d e result hne => simp_all
        | admitted valid status hs hn hf => exact ⟨hs,hn⟩
        | admitWake valid status hs hn hf => exact ⟨hs,hn⟩
      constructor
      · intro x hx
        cases hask : x.stopAsked
        · rfl
        · have := hi.asked x hx hask
          simp [hgate.1, stops] at this
      · intro hcalm
        rcases hc.started hgate.1 with hpos | hret
        · obtain ⟨x,hx,hxs⟩ := exists_of_load_pos hpos
          have := hc.announced hi hx hxs hgate.1 hgate.2
          rw [hcalm x hx] at this
          cases this
        · exact hret
    · cases heq
  · intro p hp htear result hwake
    have hzero := (hi.torn p hp).2 htear
    have := weight_le_load (w := waking) hwake
    rw [← hi.wakes, hzero] at this
    simp [waking] at this

def readyActor : ActorSystem :=
  { shared := { runtime := .machine, onError := true, onDone := true }, threads := [] }

theorem readyActor_ready : ActorReady readyActor := ⟨rfl,.machine,true,true,rfl⟩

def startToStop : List ActorAction :=
  [.enter .start] ++ List.replicate 6 (.run 0 .go) ++
    [.enter (.send true), .run 2 (.answer .ok false), .enter .stop, .run 3 .go, .run 3 .go,
      .run 1 (.ends .done), .run 1 .go, .run 1 .go, .run 1 .go, .run 1 .go, .run 1 .go,
      .enter .wait, .run 4 .go]

theorem startToStop_lifecycle : ∃ s, exec actorStep readyActor startToStop = some s ∧
    (s.threads[2]? = some (.sent .accepted) ∧ s.threads[4]? = some (.waitReturned .stopped) ∧
      s.shared.calls = [.done]) ∧ ActorLifecycle s :=
  exec_shows_and (by decide +kernel) fun s he _ =>
    actor_lifecycle s (.exec_admits (.start readyActor_ready) (by decide +kernel) he)

/-- The machine's initial state is an error state: the run has recorded its error and is about to
call the sink when start asks it for demand. -/
def refusedBeforeError : List ActorAction :=
  [.enter .start, .run 0 .go, .run 0 .go, .run 0 .go, .run 0 .go,
    .run 1 (.ends (.error (some "initial error state"))), .run 0 .go, .run 0 .go, .run 0 .go,
    .run 0 .go, .run 0 .go, .enter .wait, .run 2 .go, .run 1 .go, .run 1 .go]

def sendBeforeReturn : List ActorAction :=
  [.enter .start, .run 0 .go, .run 0 .go, .run 0 .go, .run 0 .go, .enter (.send true),
    .run 2 (.answer .ok false)]

/-- A wait has returned with the user's `on_error` still running; and a send is accepted with the
start still in progress. -/
theorem wait_returns_before_callback :
    (∃ s, Reach actorStep ActorReady Serialized s ∧ .waitReturned .failed ∈ s.threads ∧
      .inError false ∈ s.threads) ∧
    (∃ s, Reach actorStep ActorReady Serialized s ∧ .sent .accepted ∈ s.threads ∧
      .startRequest ∈ s.threads) := by
  constructor
  · exact exec_shows _ readyActor refusedBeforeError (by decide +kernel) fun s he =>
      .exec_admits (.start readyActor_ready) (by decide +kernel) he
  · exact exec_shows _ readyActor sendBeforeReturn (by decide +kernel) fun s he =>
      .exec_admits (.start readyActor_ready) (by decide +kernel) he

end Salts.CFlow
