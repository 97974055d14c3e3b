import Salts.CFlowRunDestroy

/-!
The terminal of a source that is told by a wake.  The pump polls it only when it has a unit left and
no demand, so a wake that finds the pump running counts on the loop to come back to the poll.  With
its demand spent the loop does not come back behind the last unit of its quantum, and a source that
ends then is not polled again.
-/

namespace Salts.CFlow

open ThreadPool RunImpl Transition
open RunPoint
open RunImpl
open ChannelSource (plane)

variable {δ α ε : Type}

/-- The source reports its terminal, nothing is left to deliver before it, and nobody has asked to
cancel or close the run. -/
def RunImpl.sourceEnded (P : Plane δ α ε) (r : RunImpl δ α) : Bool :=
  P.poll r.plane != .opened && (P.topFrame r.plane).isNone && P.nodesDone r.plane &&
    !r.cancelRequested && !r.closeRequested

def RunPoint.wakes : RunPoint α ε → Nat
  | .wake => 1
  | .schedule true _ _ => 1
  | _ => 0

def RunPoint.isTail : RunPoint α ε → Bool
  | .tail => true
  | _ => false

/-- The pump is neither scheduled nor running, waits for nothing, and no wake or notification is in
progress. -/
structure Quiescent (s : RunSystem δ α ε) : Prop where
  scheduled : s.shared.taskScheduled = false
  running : s.shared.pumpRunning = false
  waiting : s.shared.waiting = false
  wakes : load wakes s.threads = 0
  notifies : load notifies s.threads = 0

instance (s : RunSystem δ α ε) : Decidable (Quiescent s) :=
  decidable_of_iff (s.shared.taskScheduled = false ∧ s.shared.pumpRunning = false ∧
    s.shared.waiting = false ∧ load wakes s.threads = 0 ∧
    load notifies s.threads = 0)
    ⟨fun ⟨h1, h2, h3, h4, h5⟩ => ⟨h1, h2, h3, h4, h5⟩, fun ⟨h1, h2, h3, h4, h5⟩ =>
      ⟨h1, h2, h3, h4, h5⟩⟩

/-- The pump misses the end of the source: with the demand spent the source ends while the pump is
behind its loop, or the pump has used up its quantum when the source has ended; or the wake of the
source finds a counter exhausted. -/
def terminalMissed (P : Plane δ α ε) (s : RunSystem δ α ε) : RunPoint α ε → Bool
  | .source e =>
    P.poll s.shared.plane == .opened && P.poll (P.event s.shared.plane e) != .opened &&
      s.shared.demand == 0 && s.threads.any isTail
  | .head i => decide (runQuantum ≤ i) && s.shared.demand == 0 && P.poll s.shared.plane != .opened
  | .schedule true _ _ => s.shared.exhausted
  | _ => false

def TerminalPolled (P : Plane δ α ε) (s : RunSystem δ α ε) (a : RunAction α ε) : Prop :=
  avoids (terminalMissed P) s a

instance (P : Plane δ α ε) (s : RunSystem δ α ε) (a : RunAction α ε) :
    Decidable (TerminalPolled P s a) :=
  inferInstanceAs (Decidable (avoids _ s a))

def SubscribedOpen (P : Plane δ α ε) (s : RunSystem δ α ε) : Prop :=
  Subscribed s ∧ P.poll s.shared.plane = .opened ∧ P.sourceDone s.shared.plane = false

/-- What the pump knows at its points: it works on a run that does not wait, it arms a waitable with
demand left, and behind its loop it goes on if the source has ended. -/
def Poised (P : Plane δ α ε) (r : RunImpl δ α) : RunPoint α ε → Prop
  | .takeCancel _ => r.waiting = false
  | .processUnit _ => r.waiting = false
  | .deliver _ _ => r.waiting = false
  | .arm _ => 0 < r.demand
  | .tail => r.sourceEnded P = true →
      r.terminated = true ∨ P.sourceDone r.plane = true ∨ 0 < r.demand
  | _ => True

/-- A source that has ended is polled: the pump runs, waits, is posted with the duty to fail, or a
wake is on its way. -/
structure PollInv (P : Plane δ α ε) (s : RunSystem δ α ε) : Prop where
  poised : ∀ p ∈ s.threads, Poised P s.shared p
  waits : s.shared.waiting = true → 0 < s.shared.demand
  polled : s.shared.sourceEnded P = true → s.shared.terminated = false →
    s.shared.pumpRunning = true ∨ s.shared.waiting = true ∨
      (s.shared.taskScheduled = true ∧ s.shared.rejectionMustFail = true) ∨
      0 < load wakes s.threads

section Moves

variable {P : Plane δ α ε} {r t : RunImpl δ α} {p q : RunPoint α ε} {new : List (RunPoint α ε)}

theorem sourceEnded_event {e : ε}
    (h : P.poll (P.event r.plane e) = .opened ∨ P.poll r.plane ≠ .opened)
    (he : sourceEnded P { r with plane := P.event r.plane e } = true) :
    r.sourceEnded P = true := by
  simp only [sourceEnded, P.topFrame_event, P.nodesDone_event, Bool.and_eq_true, bne_iff_ne] at he ⊢
  rcases h with h | h
  · exact absurd h he.1.1.1.1
  · exact ⟨⟨⟨⟨h,he.1.1.1.2⟩,he.1.1.2⟩,he.1.2⟩,he.2⟩

theorem sourceEnded_parts (h : r.sourceEnded P = true) :
    P.poll r.plane ≠ .opened ∧ P.topFrame r.plane = none ∧ P.nodesDone r.plane = true := by
  simp only [sourceEnded, Bool.and_eq_true, bne_iff_ne, Option.isNone_iff_eq_none] at h
  exact ⟨h.1.1.1.1,h.1.1.1.2,h.1.1.2⟩

theorem addDemand_pos {n : Nat} (h : 0 < r.demand) : 0 < (r.addDemand n).demand := by
  have : 0 < sizeMax := by decide
  simp only [addDemand]
  omega

section

variable (h : RunMove P r p t q new) (hp : Poised P r p) (hw : r.waiting = true → 0 < r.demand)

include h hp hw

theorem RunMove.waits : t.waiting = true → 0 < t.demand := by
  cases h
  case request => exact fun hx => addDemand_pos (hw hx)
  case deliver =>
    intro hx
    rw [show r.waiting = false from hp] at hx
    cases hx
  case arm => exact fun _ => hp
  case wake | cancel | armFails => exact fun hx => by cases hx
  all_goals exact hw

theorem RunMove.poised (htold : p.told = true → r.terminated = true)
    (hl : ∀ i, p = .head i → runQuantum ≤ i → r.demand = 0 → P.poll r.plane = .opened) :
    Poised P t q := by
  cases h
  case head i he =>
    simp only [loopEnds, Bool.or_eq_false_iff] at he
    exact he.1.1.1
  case headEnds i he =>
    intro hend
    obtain ⟨hpoll,htop,hnodes⟩ := sourceEnded_parts hend
    by_cases hd : r.demand = 0
    · rcases he with hi | he
      · exact absurd (hl i rfl hi hd) hpoll
      · -- the loop ends before the quantum: the run waits or has ended, or is not through its nodes
        have : r.waiting = true ∨ r.terminated = true := by
          simpa [loopEnds, htop, hnodes] using he
        rcases this with hx | hx
        · have := hw hx
          omega
        · exact .inl hx
    · exact .inr (.inr (Nat.pos_of_ne_zero hd))
  case takeEnded ht => exact fun _ => .inl ht
  case takeCancel => exact fun _ => .inl rfl
  case takeNothing => exact hp
  case unitValue => exact hp
  case unitWait hd => exact hd
  case unitLoop d next hu hn =>
    cases next with
    | some n => exact trivial
    | none =>
      intro hend
      obtain ⟨hpoll,htop,hnodes⟩ := sourceEnded_parts hend
      rcases hn rfl with hd | hx | hx | hx
      · exact .inr (.inr hd)
      · exact absurd hx hpoll
      · rw [show P.topFrame d = none from htop] at hx
        cases hx
      · rw [show P.nodesDone d = true from hnodes] at hx
        cases hx
  case failEnded next ht =>
    cases next with
    | some n => exact trivial
    | none => exact fun _ => .inl ht
  case inError next =>
    cases next with
    | some n => exact trivial
    | none => exact fun _ => .inl (htold rfl)
  case finishEnded ht => exact fun _ => .inl ht
  case inDone => exact fun _ => .inl (htold rfl)
  case cancelEnds k _ | markAgain k _ | unposted k _ | releasePosting k _ => cases k <;> exact trivial
  all_goals exact trivial

end

theorem RunMove.aside (h : RunMove P r p t q new) (hp : p.pumps = 0) :
    (t.waiting = true → r.waiting = true) ∧ (0 < r.demand → 0 < t.demand) ∧
    (t.sourceEnded P = true → t.terminated = true ∨
      (P.sourceDone t.plane = P.sourceDone r.plane ∧ (r.sourceEnded P = true ∨
        ∃ e, p = .source e ∧ P.poll r.plane = .opened ∧
          P.poll (P.event r.plane e) ≠ .opened))) := by
  cases h
  case request => exact ⟨id,addDemand_pos,fun hx => .inr ⟨rfl,.inl hx⟩⟩
  case wake => exact ⟨fun hx => (by cases hx),id,fun hx => .inr ⟨rfl,.inl hx⟩⟩
  case source e =>
    refine ⟨id,id,fun hx => .inr ⟨P.sourceDone_event _ e,?_⟩⟩
    by_cases hopen : P.poll r.plane = .opened
    · exact .inr ⟨e,rfl,hopen,(sourceEnded_parts hx).1⟩
    · exact .inl (sourceEnded_event (.inr hopen) hx)
  case sourceSilent e hsilent =>
    exact ⟨id,id,fun hx => .inr ⟨P.sourceDone_event _ e,.inl (sourceEnded_event hsilent hx)⟩⟩
  case cancel =>
    exact ⟨fun hx => (by cases hx),id,fun hx => (by simp [sourceEnded] at hx)⟩
  case mark => exact ⟨id,id,fun hx => by simp [sourceEnded] at hx⟩
  case taskCancelled => exact ⟨id,id,fun _ => .inl rfl⟩
  all_goals first
    | exact ⟨id,id,fun hx => .inr ⟨rfl,.inl hx⟩⟩
    | cases hp

theorem Poised.keep {x : RunPoint α ε} (hx : Poised P r x) (h : RunMove P r p t q new)
    (hp : x.pumps = 1 → p.pumps = 0)
    (hl : ∀ e, p = .source e → x = .tail → P.poll r.plane = .opened →
      P.poll (P.event r.plane e) ≠ .opened → 0 < r.demand) : Poised P t x := by
  cases x with
  | takeCancel | processUnit | deliver =>
    have hwait := (h.aside (hp rfl)).1
    refine Bool.eq_false_iff.2 fun ht => ?_
    rw [show r.waiting = false from hx] at hwait
    exact absurd (hwait ht) (by decide)
  | arm => exact (h.aside (hp rfl)).2.1 hx
  | tail =>
    intro hend
    obtain ⟨-,hdemand,hsource⟩ := h.aside (hp rfl)
    rcases hsource hend with ht | ⟨hdone,hold | ⟨e,he,hopen,hends⟩⟩
    · exact .inl ht
    · rcases hx hold with ht | hs | hd
      · exact .inl (h.monotone.1 ht)
      · exact .inr (.inl (hdone ▸ hs))
      · exact .inr (.inr (hdemand hd))
    · exact .inr (.inr (hdemand (hl e he rfl hopen hends)))
  | _ => exact trivial

theorem runnable_of_ended (he : r.sourceEnded P = true)
    (h : P.sourceDone r.plane = true ∨ 0 < r.demand) : r.runnable P = true := by
  obtain ⟨-,htop,hnodes⟩ := sourceEnded_parts he
  cases hs : P.sourceDone r.plane
  · rcases h with h | h
    · rw [hs] at h
      cases h
    · simp [runnable, hs, h]
  · simp [runnable, hs, htop, hnodes]

structure Working (r : RunImpl δ α) (p : RunPoint α ε) : Prop where
  body : p.pumps = 1 → r.pumpRunning = true
  carries : ∀ g, p.carries = some g → g = r.scheduledTaskGeneration ∧ r.taskScheduled = true
  closed : r.closed = true → r.closeRequested = true
  freed : r.freed ≠ 0 → r.closeRequested = true

theorem joined_of_unposted (hw : Working r p) (ha : r.admits = false)
    (he : r.sourceEnded P = true) (ht : r.terminated = false) :
    r.pumpRunning = true ∨ r.waiting = true ∨
      (r.taskScheduled = true ∧ (r.joinScheduled true).rejectionMustFail = true) := by
  have hc : r.closed = false := by
    by_contra hne
    have := hw.closed (by simpa using hne)
    simp [RunImpl.sourceEnded, this] at he
  cases hp : r.pumpRunning
  · cases hwt : r.waiting
    · have hs : r.taskScheduled = true := by
        simpa [RunImpl.admits, hc, ht, hp, hwt] using ha
      exact .inr (.inr ⟨hs,by simp [RunImpl.joinScheduled, RunImpl.joins, hc, ht, hp, hwt, hs]⟩)
    · exact .inr (.inl rfl)
  · exact .inl rfl

theorem RunMove.polled_cases (h : RunMove P r p t q new) (hw : Working r p) (hp : Poised P r p)
    (hl : ∀ published k, p = .schedule true published k → r.exhausted = false)
    (he : t.sourceEnded P = true) (ht : t.terminated = false) :
    (t.pumpRunning = true ∨ t.waiting = true ∨
      (t.taskScheduled = true ∧ t.rejectionMustFail = true) ∨ 0 < q.wakes) ∨
    (r.sourceEnded P = true ∧ r.terminated = false ∧ p.wakes = 0 ∧
      (r.pumpRunning = true → t.pumpRunning = true) ∧ (r.waiting = true → t.waiting = true) ∧
      (r.taskScheduled = true ∧ r.rejectionMustFail = true →
        t.taskScheduled = true ∧ t.rejectionMustFail = true)) := by
  have hclosing : t.closeRequested = false ∧ t.cancelRequested = false := by
    simp only [sourceEnded, Bool.and_eq_true, Bool.not_eq_true'] at he
    exact ⟨he.2,he.1.2⟩
  cases h
  case wakeEnds hf =>
    rw [hw.freed hf] at hclosing
    cases hclosing.1
  case wake | source | tailSchedules => exact .inl (.inr (.inr (.inr Nat.one_pos)))
  case sourceSilent e hpoll =>
    exact .inr ⟨sourceEnded_event hpoll he,ht,rfl,id,id,id⟩
  case cancel => cases hclosing.2
  case mark => cases hclosing.1
  case admitPump f published k ha =>
    cases f with
    | true => exact .inl (.inr (.inr (.inl ⟨rfl,rfl⟩)))
    | false =>
      -- a request posts: the wake of the source is still on its way
      obtain ⟨-,hterm,hpr,hwt,hts⟩ := admits_iff.1 ha
      refine .inr ⟨he,hterm,rfl,id,id,fun hx => ?_⟩
      rw [hts] at hx
      cases hx.1
  case unposted f published k ha =>
    cases f with
    | true =>
      have hadm := ha.resolve_right (by simp [hl published k rfl])
      rcases joined_of_unposted hw hadm he ht with hx | hx | hx
      · exact .inl (.inl hx)
      · exact .inl (.inr (.inl hx))
      · exact .inl (.inr (.inr (.inl hx)))
    | false =>
      refine .inr ⟨he,ht,rfl,id,id,fun hx => ⟨hx.1,?_⟩⟩
      simp [joinScheduled, hx.2]
  case rejectedFails hf => simp [rejectPost, hf] at ht
  case rejected generation result k hf =>
    have hterm : r.terminated = false := by simpa [rejectPost, hf] using ht
    refine .inr ⟨he,hterm,rfl,id,id,fun hx => ?_⟩
    -- a task with the duty to fail would have ended the run
    have hcur : r.current generation = true := by
      obtain ⟨hg,hs⟩ := hw.carries generation rfl
      simp [current, hs, hg]
    have hcr : r.closeRequested = false ∧ r.cancelRequested = false := hclosing
    simp [rejectionFails, hcur, hx.2, hcr.1, hcr.2, hterm] at hf
  case task => exact .inl (.inl rfl)
  case taskEnded hx =>
    have : r.terminated = false := ht
    simp [hx] at this
  case taskCancelled | takeCancel | fail | finish => cases ht
  case tailEnds hend =>
    have hterm : r.terminated = false := ht
    cases hwt : r.waiting
    · -- the pump goes on
      have hrun : r.runnable P = true := runnable_of_ended he ((hp he).resolve_left (by simp [hterm]))
      simp [hterm, hwt, hrun] at hend
    · exact .inl (.inr (.inl rfl))
  -- the points of the pump, and the moves that touch none of this
  all_goals first
    | exact .inl (.inl (hw.body rfl))
    | exact .inr ⟨he,ht,rfl,id,id,id⟩

end Moves

variable {s : RunSystem δ α ε}

theorem RunInv.working {p : RunPoint α ε} (hr : RunInv s) (hc : CloseInv s)
    (hp : p ∈ s.threads) : Working s.shared p := by
  refine ⟨fun h1 => ?_,fun g hg => ⟨hr.generation p hp g hg,?_⟩,fun h => hc.destroying (hc.closed h),
    fun hf => hc.destroying (hc.freed_destroying hf)⟩
  · have := weight_le_load (w := pumps) hp
    rw [h1, ← hr.pump] at this
    exact flag_of_pos this
  · have := weight_le_load (w := holds) hp
    rw [← hr.scheduled, holds, hg] at this
    exact flag_of_pos this

namespace PollInv

variable {P : Plane δ α ε} {s : RunSystem δ α ε} {t : RunImpl δ α} {p q : RunPoint α ε}
  {new : List (RunPoint α ε)} {i : Nat}

theorem subscribed (h : SubscribedOpen P s) : PollInv P s := by
  obtain ⟨shared,threads⟩ := s
  obtain ⟨⟨rfl,d,rfl⟩,hopen,-⟩ := h
  refine ⟨by simp,fun hw => (by cases hw),fun he => absurd hopen (sourceEnded_parts he).1⟩

theorem move (h : PollInv P s) (hr : RunInv s) (hc : CloseInv s) (hp : s.threads[i]? = some p)
    (hm : RunMove P s.shared p t q new) (hl : terminalMissed P s p = false) :
    PollInv P { shared := t, threads := s.threads.set i q ++ new } := by
  have hmem := List.mem_of_getElem? hp
  refine ⟨hm.forall_threads h.poised ?_ (fun _ => trivial) ?_,hm.waits (h.poised p hmem) h.waits,fun he ht => ?_⟩
  · refine hm.poised (h.poised p hmem) h.waits (hc.told p hmem) ?_
    rintro i rfl hi hd
    simpa [terminalMissed, hi, hd] using hl
  · intro j x hij hj hx
    refine hx.keep hm (fun h1 => hr.other_pumps hj (.inl h1) hp (Ne.symm hij)) ?_
    rintro e rfl rfl hopen hends
    have htail : s.threads.any isTail = true :=
      List.any_eq_true.2 ⟨.tail,List.mem_of_getElem? hj,rfl⟩
    refine Nat.pos_of_ne_zero fun hd => ?_
    simp [terminalMissed, hopen, hends, hd, htail] at hl
  have hload := load_step (w := wakes) q new hp
  have hsched : ∀ published k, p = .schedule true published k → s.shared.exhausted = false := by
    rintro published k rfl
    exact hl
  rcases hm.polled_cases (hr.working hc hmem) (h.poised p hmem) hsched he ht with
    hx | ⟨hse,hterm,hw0,hpr,hwt,hts⟩
  · rcases hx with hx | hx | hx | hx
    · exact .inl hx
    · exact .inr (.inl hx)
    · exact .inr (.inr (.inl hx))
    · have : q.wakes ≤ load wakes (s.threads.set i q ++ new) := weight_le_load (mem_moved hp)
      exact .inr (.inr (.inr (Nat.lt_of_lt_of_le hx this)))
  · rcases h.polled hse hterm with hx | hx | hx | hx
    · exact .inl (hpr hx)
    · exact .inr (.inl (hwt hx))
    · exact .inr (.inr (.inl (hts hx)))
    · refine .inr (.inr (.inr ?_))
      show 0 < load wakes (s.threads.set i q ++ new)
      omega

theorem enter (h : PollInv P s) (hp : p.entry = true) :
    PollInv P { shared := s.shared, threads := s.threads ++ [p] } := by
  refine ⟨?_,h.waits,fun he ht => ?_⟩
  · have : Poised P s.shared p := by cases p <;> first | exact trivial | cases hp
    simpa [or_imp, forall_and, this] using h.poised
  · refine (h.polled he ht).imp_right (Or.imp_right (Or.imp_right fun hx => ?_))
    rw [load_append]
    omega

end PollInv

theorem poll_invariant {P : Plane δ α ε}
    (h : Reach (runStep P) (SubscribedOpen P) (TerminalPolled P) s) : PollInv P s :=
  run_invariant h (fun _ hs => ⟨hs.1,.subscribed hs⟩)
    (fun hr hc hi hok hp hm => hi.move hr hc hp hm (avoids_run hok hp)) fun hi hp => hi.enter hp

/-! ### The sink is told the terminal of the source -/

def Terminal.event : Terminal → SinkEvent α
  | .error m => .error (m.getD "source terminal error")
  | _ => .done

/-- The terminal of the source stays, and the run takes the source for done only behind it. -/
structure Plane.Lasting (P : Plane δ α ε) : Prop where
  event : ∀ d e, P.poll d ≠ .opened → P.poll (P.event d e) = P.poll d
  works : ∀ d d', P.Works d d' → (P.sourceDone d = true → P.poll d = .done) →
    P.sourceDone d' = true → P.poll d' = .done

/-- The run fails on its own account: in a unit, a callback or a waitable, or by a rejected post. -/
def failsItself (s : RunSystem δ α ε) : RunPoint α ε → Bool
  | .fail _ _ none => true
  | .rejected generation _ _ => s.shared.rejectionFails generation
  | _ => false

def Unfailing (s : RunSystem δ α ε) (a : RunAction α ε) : Prop := avoids failsItself s a

instance (s : RunSystem δ α ε) (a : RunAction α ε) : Decidable (Unfailing s a) :=
  inferInstanceAs (Decidable (avoids _ s a))

/-- What the pump has seen of the source when it is about to end the run. -/
def Telling (P : Plane δ α ε) (r : RunImpl δ α) : RunPoint α ε → Prop
  | .fail _ message (some _) =>
    ∃ m, P.poll r.plane = .error m ∧ message = m.getD "source terminal error"
  | .finish => P.sourceDone r.plane = true
  | _ => True

structure ToldInv (P : Plane δ α ε) (s : RunSystem δ α ε) : Prop where
  done : P.sourceDone s.shared.plane = true → P.poll s.shared.plane = .done
  tells : ∀ p ∈ s.threads, Telling P s.shared p
  told : s.shared.terminated = true → P.poll s.shared.plane ≠ .opened ∧
    s.shared.outcome = (P.poll s.shared.plane).event

section Moves

variable {P : Plane δ α ε} {r t : RunImpl δ α} {p q x : RunPoint α ε} {new : List (RunPoint α ε)}

theorem RunMove.plane_cases (h : RunMove P r p t q new) (hc : t.cancelled = false) :
    r.cancelled = false ∧ ((p.opens = true ∧ P.Works r.plane t.plane) ∨ t.plane = r.plane ∨
      ∃ e, t.plane = P.event r.plane e) := by
  cases h
  case source e | sourceSilent e _ => exact ⟨hc,.inr (.inr ⟨e,rfl⟩)⟩
  case unitLoop hu _ | unitValue hu _ | unitWait hu _ | unitFail hu _ => exact ⟨hc,.inl ⟨rfl,hu⟩⟩
  case takeCancel | taskCancelled => cases hc
  all_goals exact ⟨hc,.inr (.inl rfl)⟩

theorem RunMove.poll_eq (h : RunMove P r p t q new) (hP : P.Lasting) (hc : t.cancelled = false)
    (hp : p.opens = false) (hpoll : P.poll r.plane ≠ .opened) : P.poll t.plane = P.poll r.plane := by
  rcases (h.plane_cases hc).2 with ⟨ho,-⟩ | heq | ⟨e,heq⟩
  · rw [hp] at ho
    cases ho
  · rw [heq]
  · rw [heq, hP.event _ e hpoll]

theorem RunMove.telling (h : RunMove P r p t q new) : Telling P t q := by
  cases h
  case unitFail next _ hd =>
    cases next with
    | none => exact trivial
    | some n =>
      rcases hd with ⟨-,hn⟩ | ⟨-,hm⟩
      · cases hn
      · exact hm
  case unitFinish hs => exact hs
  case cancelEnds k _ | markAgain k _ | unposted k _ | releasePosting k _ => cases k <;> exact trivial
  case unitLoop next _ _ | failEnded next _ | inError next => cases next <;> exact trivial
  all_goals exact trivial

theorem Telling.keep (hx : Telling P r x) (h : RunMove P r p t q new) (hP : P.Lasting)
    (hc : t.cancelled = false) (hp : x.pumps = 1 → p.pumps = 0) : Telling P t x := by
  have hopens : p.pumps = 0 → p.opens = false := fun h0 => by
    cases p <;> first | rfl | cases h0
  unfold Telling at hx ⊢
  split at hx
  · obtain ⟨m,hm,hmsg⟩ := hx
    refine ⟨m,?_,hmsg⟩
    rw [h.poll_eq hP hc (hopens (hp rfl)) (by simp [hm]), hm]
  · rcases (h.plane_cases hc).2 with ⟨ho,-⟩ | heq | ⟨e,heq⟩
    · rw [hopens (hp rfl)] at ho
      cases ho
    · rw [heq, hx]
    · rw [heq, P.sourceDone_event, hx]
  · exact trivial

theorem RunMove.ends_cases (h : RunMove P r p t q new) (hr : r.terminated = false)
    (ht : t.terminated = true) (hc : t.cancelled = false) :
    (∃ g result k, p = .rejected g result k ∧ r.rejectionFails g = true) ∨
    (∃ st m next, p = .fail st m next ∧ t = r.failStatus st m) ∨
    (p = .finish ∧ t = { r with terminated := true }) := by
  cases h
  case rejectedFails g result k hf => exact .inl ⟨g,result,k,rfl,hf⟩
  case rejected hf => simp [rejectPost, hr, hf] at ht
  case fail st m next _ => exact .inr (.inl ⟨st,m,next,rfl,rfl⟩)
  case finish => exact .inr (.inr ⟨rfl,rfl⟩)
  case takeCancel | taskCancelled => cases hc
  all_goals
    have ht : r.terminated = true := ht
    rw [hr] at ht
    cases ht

end Moves

namespace ToldInv

variable {P : Plane δ α ε} {t : RunImpl δ α} {p q : RunPoint α ε} {new : List (RunPoint α ε)}
  {i : Nat}

theorem move (h : ToldInv P s) (hP : P.Lasting) (hr : RunInv s) (ho : OutcomeInv s)
    (hp : s.threads[i]? = some p) (hm : RunMove P s.shared p t q new)
    (hl : failsItself s p = false) (hc : t.cancelled = false) :
    ToldInv P { shared := t, threads := s.threads.set i q ++ new } := by
  have hmem := List.mem_of_getElem? hp
  refine ⟨fun hs => ?_,hm.forall_threads h.tells hm.telling (fun _ => trivial) ?_,fun ht => ?_⟩
  · rcases (hm.plane_cases hc).2 with ⟨-,hu⟩ | heq | ⟨e,heq⟩
    · exact hP.works _ _ hu h.done hs
    · exact heq.symm ▸ h.done (heq ▸ hs)
    · have hold := h.done (by rw [← P.sourceDone_event _ e, ← heq, hs])
      show P.poll t.plane = .done
      rw [heq, hP.event _ e (by simp [hold]), hold]
  · exact fun j x hij hj hx =>
      hx.keep hm hP hc fun h1 => hr.other_pumps hj (.inl h1) hp (Ne.symm hij)
  · cases hterm : s.shared.terminated
    · rcases hm.ends_cases hterm ht hc with ⟨g,result,k,rfl,hf⟩ | ⟨st,m,next,rfl,rfl⟩ | ⟨rfl,rfl⟩
      · simp [failsItself, hf] at hl
      · cases next with
        | none => cases hl
        | some n =>
          obtain ⟨m',hpoll,rfl⟩ := h.tells _ hmem
          have hc : s.shared.cancelled = false := hc
          simp [hpoll, Terminal.event, outcome, failStatus, hc]
      · have hpoll := h.done (h.tells _ hmem)
        obtain ⟨hcan,herr⟩ := ho.fresh hterm
        simp [hpoll, Terminal.event, outcome, hcan, herr]
    · obtain ⟨hpoll,hout⟩ := h.told hterm
      have hopens : p.opens = false := by
        by_contra hne
        rw [hr.opened p hmem (by simpa using hne)] at hterm
        cases hterm
      have heq := hm.poll_eq hP hc hopens hpoll
      exact ⟨by rw [heq]; exact hpoll,by rw [heq, hm.outcome_eq hterm]; exact hout⟩

theorem reach (hP : P.Lasting) (h : Reach (runStep P) (SubscribedOpen P) Unfailing s)
    (hc : s.shared.cancelled = false) : ToldInv P s := by
  refine (run_invariant h (I := fun s => OutcomeInv s ∧ (s.shared.cancelled = false → ToldInv P s))
    ?_ ?_ ?_).2 hc
  · rintro s ⟨hs,hopen,hdone⟩
    refine ⟨hs,.subscribed hs,fun _ => ?_⟩
    obtain ⟨shared,threads⟩ := s
    obtain ⟨rfl,d,rfl⟩ := hs
    exact ⟨fun hx => by simp [hdone] at hx,by simp,fun hx => by cases hx⟩
  · rintro s i c p t q new hr - ⟨ho,hi⟩ hok hp hm
    refine ⟨ho.move hr hp hm,fun hc => ?_⟩
    exact (hi (hm.plane_cases hc).1).move hP hr ho hp hm (avoids_run hok hp) hc
  · rintro s p ⟨ho,hi⟩ hp
    refine ⟨ho.enter hp,fun hc => ?_⟩
    have hi := hi hc
    have : Telling P s.shared p := by cases p <;> first | exact trivial | cases hp
    exact ⟨hi.done,by simpa [or_imp, forall_and, this] using hi.tells,hi.told⟩

end ToldInv

/-- In every run that starts on an open source and whose pump does not miss its end: when the run is
quiescent and the source reports its terminal with nothing left to deliver, the run has ended and
its sink has been told how.  Unless the run failed by itself or was cancelled, that is the terminal
the source reports. -/
theorem quiescent_source_terminal_delivered (P : Plane δ α ε) (s : RunSystem δ α ε)
    (h : Reach (runStep P) (SubscribedOpen P) (TerminalPolled P) s) (hq : Quiescent s)
    (he : s.shared.sourceEnded P = true) :
    s.shared.terminated = true ∧ s.shared.outcome ∈ s.shared.log ∧
      (P.Lasting → Reach (runStep P) (SubscribedOpen P) Unfailing s →
        s.shared.cancelled = false → s.shared.outcome = (P.poll s.shared.plane).event) := by
  have hsub : Reach (runStep P) Subscribed (TerminalPolled P) s := h.mono_init fun _ hs => hs.1
  have hterm : s.shared.terminated = true := by
    by_contra hne
    rcases (poll_invariant h).polled he (by simpa using hne) with hx | hx | hx | hx
    · simp [hq.running] at hx
    · simp [hq.waiting] at hx
    · simp [hq.scheduled] at hx
    · simp [hq.wakes] at hx
  refine ⟨hterm,?_,fun hP hf hc => ((ToldInv.reach hP hf hc).told hterm).2⟩
  have hn := (run_invariants hsub).1.notices
  rw [hterm, hq.notifies] at hn
  obtain ⟨e,hmem,hends⟩ : ∃ e ∈ s.shared.log, e.ends = true := by
    have : 0 < ends s.shared.log := by simp at hn; omega
    simpa [ends] using this
  rw [← (outcome_invariant hsub).logged e hmem hends]
  exact hmem

theorem channel_lasting : (ChannelSource.plane (α := α)).Lasting where
  event := by
    intro d e hpoll
    have hshut : d.channel.closed = true ∧ d.channel.data.isEmpty = true := by
      by_contra hne
      exact hpoll (if_neg (by simpa using hne))
    cases e with
    | push v => simp [ChannelSource.plane, ChannelSource.event, Channel.tryPush, hshut.1]
    | close =>
      simp [ChannelSource.plane, ChannelSource.event, Channel.close, Channel.pollTerminal, hshut.1]
  works := by
    rintro d d' hu hd hs
    rcases hu with rfl | rfl | ⟨hpoll,rfl⟩ | rfl | ⟨n,rfl | rfl⟩
    · exact hd hs
    · exact hd hs
    · exact hpoll
    · exact hd hs
    · exact hd hs
    · obtain ⟨⟨capacity,data,closed⟩,done⟩ := d
      cases data with
      | nil =>
        cases closed with
        | true => rfl
        | false => exact absurd (hd hs) (by simp [ChannelSource.plane, Channel.pollTerminal])
      | cons v rest =>
        cases closed with
        | true =>
          cases rest with
          | nil => rfl
          | cons w rest => exact absurd (hd hs) (by simp [ChannelSource.plane, Channel.pollTerminal])
        | false => exact absurd (hd hs) (by simp [ChannelSource.plane, Channel.pollTerminal])

def filledRun (n : Nat) : RunSystem (ChannelSource Nat) Nat (ChannelEvent Nat) :=
  { shared := { plane := { channel := { capacity := 64, data := List.replicate n 0 } } },
    threads := [] }

/-- Demand for `n` values whose last callback closes the channel; `rest` are the moves of the pump
behind that callback. -/
def closesInCallback (n rest : Nat) : List (RunAction Nat (ChannelEvent Nat)) :=
  [.enter (.request n)] ++ List.replicate 5 (.run 0 .go) ++ List.replicate (5 * n) (.run 1 .go) ++
    [.enter (.source .close), .run 2 .go, .run 2 .go, .run 2 .go] ++
    List.replicate rest (.run 1 .go)

theorem filledRun_subscribed {n : Nat} : SubscribedOpen plane (filledRun n) :=
  ⟨⟨rfl,_,rfl⟩,rfl,rfl⟩

/-- The only value is the first of its quantum: the loop comes back, polls, and tells the sink. -/
theorem first_unit_terminal_delivered :
    ∃ s, exec (runStep plane) (filledRun 1) (closesInCallback 1 12) = some s ∧
      (Quiescent s ∧ s.shared.sourceEnded plane = true ∧ s.shared.cancelled = false) ∧
      s.shared.outcome ∈ s.shared.log ∧
      s.shared.outcome = (s.shared.plane.channel.pollTerminal).event := by
  refine exec_shows_and (by decide +kernel) fun s hs h => ?_
  obtain ⟨-,htold,hout⟩ := quiescent_source_terminal_delivered _ s
    (.exec_admits (.start filledRun_subscribed) (by decide +kernel) hs) h.1 h.2.1
  exact ⟨htold,hout channel_lasting
    (.exec_admits (.start filledRun_subscribed) (by decide +kernel) hs) h.2.2⟩

/-- The last value is the 64th of its quantum: the wake of the close finds the pump running, the
loop ends before a poll, and nobody schedules the pump again. -/
theorem last_unit_terminal_dropped :
    ∃ s : RunSystem (ChannelSource Nat) Nat (ChannelEvent Nat),
      Reach (runStep plane) (SubscribedOpen plane) anyAction s ∧
      Quiescent s ∧ s.shared.sourceEnded plane = true ∧
      s.shared.terminated = false ∧ s.shared.log = List.replicate 64 (.value 0) :=
  exec_shows (runStep plane) (filledRun 64) (closesInCallback 64 4)
    (by decide +kernel) fun _ => Reach.exec (.start filledRun_subscribed) fun _ _ _ => trivial

end Salts.CFlow
