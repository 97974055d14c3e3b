import Salts.CFlowDemand
import Salts.CFlowEval

/-!
A steady run with unspent demand goes on: some thread attends to it, every move of a thread leaves
less to do, and it stops only when the demand is spent, the run has ended, or the source makes it
wait.
-/

namespace Salts.CFlow

open ThreadPool RunImpl Transition GraphState LexDescent
open RunPoint
open GraphState (plane)
open RunImpl (move moveCaller movePump moveSchedule)

variable {δ σ α ρ μ ε : Type}

namespace RunPoint

def attends : RunPoint α ε → Nat
  | .wake => 1
  | .schedule _ _ _ => 1
  | _ => 0

/-- A bound for the moves of a thread, and of the task it posts, before the next unit of work. -/
def rank : RunPoint α ε → Nat
  | .finished _ => 0
  | .releaseTask => 1
  | .releasePosting _ _ => 3
  | .accepted _ => 4
  | .arm _ => 5
  | .finish => 5
  | .processUnit _ => 6
  | .takeCancel _ => 7
  | .head i => if i < runQuantum then 8 else 17
  | .task _ => 9
  | .posting _ _ => 14
  | .schedule _ _ _ => 15
  | .tail => 16
  | .wake => 16
  | .request _ => 16
  | .source _ => 17
  | .inDone => 17
  | .inValue _ => 18
  | .inError _ => 18
  | .arming _ => 18
  | .notifyDone => 18
  | .deliver _ _ => 19
  | .notifyError _ _ => 19
  | _ => 20

end RunPoint

def Attended (s : RunSystem δ α ε) : Prop :=
  s.shared.terminated = false → s.shared.waiting = false → 0 < s.shared.demand →
    s.shared.pumpRunning = true ∨ s.shared.taskScheduled = true ∨ 0 < load attends s.threads

section Moves

variable {P : Plane δ α ε} {r t : RunImpl δ α} {p q : RunPoint α ε} {new : List (RunPoint α ε)}

theorem RunMove.attended_cases (h : RunMove P r p t q new) (hp : p.steady = true)
    (hu : r.Undisturbed) (hx : exhaustedAt r p = false) (hpump : p.pumps = 1 → r.pumpRunning = true)
    (ht : t.terminated = false) (hw : t.waiting = false) (hd : 0 < t.demand) :
    (t.pumpRunning = true ∨ t.taskScheduled = true ∨ 0 < q.attends) ∨
      (r.terminated = false ∧ r.waiting = false ∧ 0 < r.demand ∧ p.attends = 0 ∧
        (r.pumpRunning = true → t.pumpRunning = true) ∧
        (r.taskScheduled = true → t.taskScheduled = true)) := by
  cases h
  case request | wake | source | tailSchedules => exact .inl (.inr (.inr Nat.one_pos))
  case wakeEnds hf => exact absurd hu.freed hf
  case admitPump => exact .inl (.inr (.inl rfl))
  case unposted f published k ha =>
    have hadm : r.admits = false := by
      rcases ha with ha | he
      · exact ha
      · simpa [exhaustedAt, he] using hx
    have hterm : r.terminated = false := ht
    have hwait : r.waiting = false := hw
    cases hpr : r.pumpRunning with
    | true => exact .inl (.inl hpr)
    | false =>
      have hs : r.taskScheduled = true := by
        simpa [RunImpl.admits, hu.closed, hterm, hpr, hwait] using hadm
      exact .inl (.inr (.inl hs))
  case task => exact .inl (.inl rfl)
  case tailEnds hend =>
    have hterm : r.terminated = false := ht
    have hwait : r.waiting = false := hw
    have hrun : r.runnable P = true := runnable_of_demand hd
    simp [hterm, hwait, hrun] at hend
  case taskEnded hend =>
    rw [show r.terminated = false from ht] at hend
    cases hend
  case taskCancelled => cases ht
  -- the points of the pump, the moves that touch none of this, and the points that are not steady
  all_goals first
    | exact .inl (.inl (hpump rfl))
    | exact .inr ⟨ht,hw,hd,rfl,id,id⟩
    | cases hp

end Moves

section Attended

variable {P : Plane δ α ε} {s : RunSystem δ α ε} {t : RunImpl δ α} {p q : RunPoint α ε}
  {new : List (RunPoint α ε)} {i : Nat}

theorem Attended.move (h : Attended s) (hr : RunInv s) (hp : s.threads[i]? = some p)
    (hm : RunMove P s.shared p t q new) (hst : p.steady = true) (hu : s.shared.Undisturbed)
    (hx : exhaustedAt s.shared p = false) :
    Attended { shared := t, threads := s.threads.set i q ++ new } := by
  intro ht hw hrun
  have hpump : p.pumps = 1 → s.shared.pumpRunning = true := by
    intro h1
    have := weight_le_load (w := pumps) (List.mem_of_getElem? hp)
    rw [h1, ← hr.pump] at this
    exact flag_of_pos this
  have hload := load_step (w := attends) q new hp
  rcases hm.attended_cases hst hu hx hpump ht hw hrun with hx | ⟨h1,h2,h3,h4,h5,h6⟩
  · rcases hx with hx | hx | hx
    · exact .inl hx
    · exact .inr (.inl hx)
    · have : q.attends ≤ load attends (s.threads.set i q ++ new) := weight_le_load (mem_moved hp)
      exact .inr (.inr (Nat.lt_of_lt_of_le hx this))
  · rcases h h1 h2 h3 with hx | hx | hx
    · exact .inl (h5 hx)
    · exact .inr (.inl (h6 hx))
    · refine .inr (.inr ?_)
      show 0 < load attends (s.threads.set i q ++ new)
      omega

theorem Attended.enter (h : Attended s) :
    Attended { shared := s.shared, threads := s.threads ++ [p] } := by
  intro ht hw hrun
  rcases h ht hw hrun with hx | hx | hx
  · exact .inl hx
  · exact .inr (.inl hx)
  · refine .inr (.inr ?_)
    rw [load_append]
    omega

end Attended

def RunImpl.Stopped (r : RunImpl δ α) : Prop :=
  r.terminated = true ∨ r.waiting = true ∨ r.demand = 0

section Rank

variable {P : Plane δ α ε} {r t : RunImpl δ α} {p q : RunPoint α ε} {new : List (RunPoint α ε)}

theorem steady_enabled (hp : p.steady = true) (hf : ∀ st, p ≠ .finished st) :
    ∃ m, r.move P p .go = some m := by
  cases p
  case finished st => exact absurd rfl (hf st)
  all_goals try cases hp
  all_goals
    simp only [move, moveCaller, moveSchedule, movePump]
    repeat' split
    all_goals exact ⟨_,rfl⟩

theorem rank_head_le (i : Nat) : (head i : RunPoint α ε).rank ≤ 17 := by
  simp only [rank]
  split <;> omega

theorem rank_loop_le (next : Option Nat) : (loop next : RunPoint α ε).rank ≤ 17 := by
  cases next with
  | none => exact Nat.le_succ 16
  | some i => exact rank_head_le i

theorem rank_back_le (st : Status) {k : RunReturn} (hk : k.plain = true) :
    (back st k : RunPoint α ε).rank ≤ 1 := by
  cases k <;> first | exact Nat.zero_le _ | exact le_rfl | cases hk

theorem rank_head (hm : r.move P (.head i) .go = some (t, q, new)) (hs : ¬r.Stopped) :
    q.rank + load rank new < (head i : RunPoint α ε).rank := by
  simp only [RunImpl.Stopped, not_or] at hs
  obtain ⟨ht,hw,hd⟩ := hs
  have hl : r.loopEnds P = false := by simp [RunImpl.loopEnds, ht, hw, hd]
  simp only [move, movePump, hl] at hm
  obtain ⟨-,rfl,rfl⟩ := hm
  by_cases hi : runQuantum ≤ i
  · simp [hi, rank, Nat.not_lt.2 hi]
  · simp [hi, rank, Nat.lt_of_not_le hi]

theorem rank_move (hm : r.move P p .go = some (t, q, new)) (hp : p.steady = true)
    (hu : r.Undisturbed) (hs : ¬r.Stopped) (hunit : ∀ i, p ≠ .processUnit i) :
    t.Stopped ∨ q.rank + load rank new < p.rank := by
  by_cases hhead : ∃ i, p = .head i
  · obtain ⟨i,rfl⟩ := hhead
    exact .inr (rank_head hm hs)
  obtain ⟨hopen,-,hd⟩ : r.terminated = false ∧ r.waiting = false ∧ r.demand ≠ 0 := by
    simpa [RunImpl.Stopped] using hs
  cases RunMove.of_move hm
  case unitLoop i _ _ _ _ | unitValue i _ _ _ _ | unitWait i _ _ _ | unitFail i _ _ _ _ _ _ |
      unitFinish i _ =>
    exact absurd rfl (hunit i)
  case headEnds i _ | head i _ => exact absurd ⟨i,rfl⟩ hhead
  case takeEnded ht | failEnded ht | finishEnded ht | taskEnded ht =>
    rw [hopen] at ht
    cases ht
  case deliverUnasked hz => exact absurd hz hd
  case arm => exact .inl (.inr (.inl rfl))
  case fail | finish | taskCancelled => exact .inl (.inl rfl)
  case takeCancel hq =>
    rw [hu.cancelRequested] at hq
    cases hq
  case unposted published k _ =>
    exact .inr (Nat.lt_of_le_of_lt (rank_back_le (r.unpostedStatus published) hp) (by decide : 1 < 15))
  case releasePosting st k _ =>
    exact .inr (Nat.lt_of_le_of_lt (rank_back_le st hp) (by decide : 1 < 3))
  case inValue i | arming i =>
    exact .inr (Nat.lt_of_le_of_lt (rank_head_le (α := α) (ε := ε) (i+1)) (by decide : 17 < 18))
  case inError next =>
    exact .inr (Nat.lt_of_le_of_lt (rank_loop_le next) (by decide : 17 < 18))
  case refusePost | refuseValue | closeInValue | armFails | closeInDone =>
    simp [move, moveCaller, moveSchedule, movePump] at hm
  case closeInError next =>
    cases next <;> simp [move, moveCaller, moveSchedule, movePump,
      loop] at hm
  case releasePostingDestroys hd | releaseTaskDestroys hd =>
    have := (releaseTaskRef_destroys hd).2.1
    rw [hu.closeRequested] at this
    cases this
  all_goals first
    | (cases hp; done)
    | exact .inr (by simp [rank, runQuantum])

end Rank

structure SteadyInv (g : GraphRun σ α ρ μ ε) (left : σ → List α) (out : List α) (good : Prop)
    (s : DemandSystem (GraphState σ α μ) α ε) : Prop where
  ledger : DemandInv g left out good s
  attended : Attended s.run

def OwnMove (P : Plane δ α ε) (s t : DemandSystem δ α ε) : Prop :=
  ∃ i, SteadyDemand s (.run i .go) ∧ demandStep P s (.run i .go) = some t

section Moves

variable {P : Plane δ α ε} {s t : DemandSystem δ α ε} {i : Nat} {c : RunChoice}

theorem demandStep_run (h : demandStep P s (.run i c) = some t) :
    ∃ p u q new, s.run.threads[i]? = some p ∧ s.run.shared.move P p c = some (u, q, new) ∧
      t = DemandInv.moved s i p u q new := by
  simp only [demandStep, Option.map_eq_some_iff] at h
  obtain ⟨v,hv,rfl⟩ := h
  rcases step_cases hv with ⟨j,d,p,u,q,new,ha,hp,hm,rfl⟩ | ⟨p,ha,-⟩
  · cases ha
    refine ⟨p,u,q,new,hp,hm,?_⟩
    simp [DemandInv.moved, asksFor, hp]
  · cases ha

theorem steadyDemand_run (h : SteadyDemand s (.run i c)) {p : RunPoint α ε}
    (hp : s.run.threads[i]? = some p) :
    steadyChoice p c = true ∧ exhaustedAt s.run.shared p = false := by
  simpa [SteadyDemand, Steady, hp] using h

end Moves

namespace SteadyInv

variable {g : GraphRun σ α ρ μ ε} {left : σ → List α} {out : List α} {good : Prop}
  {s t : DemandSystem (GraphState σ α μ) α ε} {source : σ}

theorem opened (h : Opened g source s) (hgood : good → (g.subscribe source).Succeeds g left) :
    SteadyInv g left (g.path.denote g.options (left source)) good s := by
  refine ⟨.opened h hgood,?_⟩
  subst h
  exact fun _ _ hd => absurd hd (Nat.lt_irrefl 0)

theorem delivered_eq_take (h : SteadyInv g left out good s) (hg : good)
    (hmax : min s.asked out.length ≤ sizeMax)
    (hstop : s.run.shared.terminated = true ∨ s.run.shared.demand = 0) :
    s.run.shared.delivered = out.take s.asked := by
  have hok := (h.ledger.fits hg).2.1
  have hspent := h.ledger.spent
  have hbegins := List.prefix_iff_eq_take.1 h.ledger.begins
  by_cases hterm : s.run.shared.terminated = true
  · have hall := h.ledger.ended hterm hok
    rw [hall] at hspent ⊢
    rw [List.take_of_length_le (by omega)]
  · have hzero := hstop.resolve_left hterm
    have howed := h.ledger.owed.resolve_left hterm
    rw [hbegins, List.take_eq_take_iff]
    omega

variable (ho : g.path.Ordered) (hrel : ∀ st ∈ g.path.stages, st.op.isRelation = false)
  (hS : g.sources.HandsOn left) (hgood : good → flatMaps g.path.stages ≤ maxContinuations)

include ho hrel hS hgood

theorem step (h : SteadyInv g left out good s) {a : RunAction α ε} (ha : SteadyDemand s a)
    (hs : demandStep (plane g) s a = some t) : SteadyInv g left out good t := by
  cases a with
  | run i c =>
    obtain ⟨p,u,q,new,hp,hm,rfl⟩ := demandStep_run hs
    obtain ⟨hc,hx⟩ := steadyDemand_run ha hp
    exact ⟨h.ledger.move hp ho hrel hS hgood hm hc,
      h.attended.move h.ledger.run hp (RunMove.of_move hm)
        (h.ledger.steady p (List.mem_of_getElem? hp)) h.ledger.undisturbed hx⟩
  | enter p =>
    simp only [demandStep, Option.map_eq_some_iff] at hs
    obtain ⟨v,hv,rfl⟩ := hs
    rcases step_cases hv with ⟨i,c,q,u,q',new,he,-⟩ | ⟨q,he,hentry,rfl⟩
    · cases he
    · cases he
      exact ⟨h.ledger.enter hentry ha,h.attended.enter⟩

theorem reach (hsucc : good → (g.subscribe source).Succeeds g left)
    (h : Reach (demandStep (plane g)) (Opened g source) SteadyDemand s) :
    SteadyInv g left (g.path.denote g.options (left source)) good s :=
  h.invariant (fun _ h0 => .opened h0 hsucc) fun _ _ _ hi ha hs => hi.step ho hrel hS hgood ha hs

end SteadyInv

/-- What is left to do: the work of the data plane, then the way of the threads to the next unit. -/
def toDo (g : GraphRun σ α ρ μ ε) (left : σ → List α) (s : DemandSystem (GraphState σ α μ) α ε) :
    (Nat → Nat) × Nat :=
  (s.run.shared.plane.workAt g left, load rank s.run.threads)

def LessToDo (g : GraphRun σ α ρ μ ε) (left : σ → List α) :
    DemandSystem (GraphState σ α μ) α ε → DemandSystem (GraphState σ α μ) α ε → Prop :=
  InvImage (Prod.Lex (Below g.path.stages.length) (· < ·)) (toDo g left)

theorem lessToDo_wellFounded (g : GraphRun σ α ρ μ ε) (left : σ → List α) :
    WellFounded (LessToDo g left) :=
  InvImage.wf _ (WellFounded.prod_lex (below_wellFounded _) Nat.lt_wfRel.wf)

section Progress

variable {g : GraphRun σ α ρ μ ε} {left : σ → List α} {out : List α} {good : Prop}
  {s t : DemandSystem (GraphState σ α μ) α ε}

theorem workAt_event (hS : g.sources.HandsOn left) (d : GraphState σ α μ) (e : ε) :
    ((plane g).event d e).workAt g left = d.workAt g left := by
  funext i
  cases i with
  | zero =>
    show (if d.sourceDone then 0 else (left (g.sources.event d.source e)).length+1) = _
    rw [hS.event]
    rfl
  | succ j => rfl

theorem lessToDo_moved {i : Nat} {p q : RunPoint α ε} {new : List (RunPoint α ε)}
    {u : RunImpl (GraphState σ α μ) α} (hp : s.run.threads[i]? = some p)
    (hw : u.plane.workAt g left = s.run.shared.plane.workAt g left)
    (hlt : q.rank + load rank new < p.rank) :
    LessToDo g left (DemandInv.moved s i p u q new) s := by
  have hrank := load_step (w := rank) q new hp
  refine Prod.lex_def.2 (.inr ⟨hw,?_⟩)
  show load rank (s.run.threads.set i q ++ new) < load rank s.run.threads
  omega

theorem unfinished_of_load {w : RunPoint α ε → Nat} {threads : List (RunPoint α ε)}
    (hw : ∀ st, w (.finished st) = 0) (h : 0 < load w threads) :
    ∃ p ∈ threads, ∀ st, p ≠ .finished st := by
  obtain ⟨p,hp,hpos⟩ := exists_of_load_pos h
  refine ⟨p,hp,?_⟩
  rintro st rfl
  rw [hw st] at hpos
  exact Nat.lt_irrefl 0 hpos

theorem SteadyInv.enabled (h : SteadyInv g left out good s) (hs : ¬s.run.shared.Stopped) :
    ∃ (i : Nat) (p : RunPoint α ε), s.run.threads[i]? = some p ∧
      (s.run.shared.move (plane g) p .go).isSome = true := by
  obtain ⟨hopen,hw,hd⟩ : s.run.shared.terminated = false ∧ s.run.shared.waiting = false ∧
      s.run.shared.demand ≠ 0 := by
    simpa [RunImpl.Stopped] using hs
  obtain ⟨p,hp,hf⟩ : ∃ p ∈ s.run.threads, ∀ st, p ≠ .finished st := by
    rcases h.attended hopen hw (Nat.pos_of_ne_zero hd) with hx | hx | hx
    · refine unfinished_of_load (w := pumps) (fun _ => rfl) ?_
      rw [← h.ledger.run.pump, hx]
      exact Nat.one_pos
    · refine unfinished_of_load (w := holds) (fun _ => rfl) ?_
      rw [← h.ledger.run.scheduled, hx]
      exact Nat.one_pos
    · exact unfinished_of_load (fun _ => rfl) hx
  obtain ⟨i,hi⟩ := List.getElem?_of_mem hp
  obtain ⟨m,hm⟩ := steady_enabled
    (h.ledger.steady p hp) hf
  exact ⟨i,p,hi,by rw [hm]; rfl⟩

variable (ho : g.path.Ordered) (hrel : ∀ st ∈ g.path.stages, st.op.isRelation = false)
  (hS : g.sources.HandsOn left) (hgood : good → flatMaps g.path.stages ≤ maxContinuations)

include ho hrel hS hgood

theorem SteadyInv.unit_descends (h : SteadyInv g left out good s) (hg : good) {i k : Nat}
    (hp : s.run.threads[i]? = some (.processUnit k)) (hs : ¬s.run.shared.Stopped) :
    LessToDo g left (DemandInv.moved s i (.processUnit k)
      (s.run.shared.processUnit (plane g) k).1
      (s.run.shared.processUnit (plane g) k).2 []) s := by
  have hopen : s.run.shared.terminated = false :=
    h.ledger.run.opened _ (List.mem_of_getElem? hp) rfl
  obtain ⟨hb,-,hsucc⟩ := h.ledger.fits hg
  have hstep := unitStep_processUnit (h.ledger.plane hopen hb) ho hrel
    h.ledger.undisturbed.cancelRequested hS k
  generalize (s.run.shared.processUnit (plane g) k).1 = t at hstep
  generalize (s.run.shared.processUnit (plane g) k).2 = q at hstep
  cases hstep with
  | idle hidle => exact absurd (.inr (.inr hidle.1)) hs
  | goOn d' next ht hw => exact .left _ _ hw
  | value d' v ht hw hd => exact .left _ _ hw
  | wait d' ht hw hsource => exact lessToDo_moved hp hw (by decide : 5 < 6)
  | fail d' status message next hf => exact absurd (hsucc hopen) (hf (hgood hg))
  | finish hrest hsucc => exact lessToDo_moved hp rfl (by decide : 5 < 6)

theorem SteadyInv.descends (h : SteadyInv g left out good s) (hg : good)
    (hm : OwnMove (plane g) s t) (hs : ¬s.run.shared.Stopped) :
    t.run.shared.Stopped ∨ LessToDo g left t s := by
  obtain ⟨i,ha,hstep⟩ := hm
  obtain ⟨p,u,q,new,hp,hmove,rfl⟩ := demandStep_run hstep
  obtain ⟨hc,-⟩ := steadyDemand_run ha hp
  have hst := h.ledger.steady p (List.mem_of_getElem? hp)
  by_cases hunit : ∃ k, p = .processUnit k
  · obtain ⟨k,rfl⟩ := hunit
    obtain ⟨rfl,rfl,rfl⟩ := move_processUnit hmove
    exact .inr (h.unit_descends ho hrel hS hgood hg hp hs)
  have hplane : u.plane.workAt g left = s.run.shared.plane.workAt g left := by
    obtain ⟨-,-,-,hsm⟩ := steady_move hmove hc hst h.ledger.undisturbed
    cases hsm with
    | quiet hsame => rw [hsame.plane]
    | source e q hq => exact workAt_event hS _ e
    | unit k => exact absurd ⟨k,rfl⟩ hunit
    | _ => rfl
  exact (rank_move hmove hst h.ledger.undisturbed hs fun k hk => hunit ⟨k,hk⟩).imp id
    (lessToDo_moved hp hplane)

theorem SteadyInv.stops (hg : good) (f : Nat → DemandSystem (GraphState σ α μ) α ε)
    (h : SteadyInv g left out good (f 0)) (hf : ∀ n, OwnMove (plane g) (f n) (f (n + 1))) :
    ∃ n, SteadyInv g left out good (f n) ∧ (f n).run.shared.Stopped := by
  have hinv : ∀ n, SteadyInv g left out good (f n) := by
    intro n
    induction n with
    | zero => exact h
    | succ n ih =>
      obtain ⟨i,ha,hs⟩ := hf n
      exact ih.step ho hrel hS hgood ha hs
  by_contra hne
  have hgo : ∀ n, ¬(f n).run.shared.Stopped := fun n hn => hne ⟨n,hinv n,hn⟩
  obtain ⟨n,hn⟩ := (lessToDo_wellFounded g left).has_min (Set.range f) ⟨f 0,0,rfl⟩
  obtain ⟨⟨m,rfl⟩,hmin⟩ := hn
  rcases (hinv m).descends ho hrel hS hgood hg (hf m) (hgo m) with hx | hx
  · exact hgo (m+1) hx
  · exact hmin _ ⟨m+1,rfl⟩ hx

end Progress

/-- The sink has what it asked for: the first values of the meaning of the path on the source list. -/
def Served (out : List α) (s : DemandSystem δ α ε) : Prop :=
  s.run.shared.delivered = out.take s.asked

/-- No pump runs or is scheduled, no call is about to schedule one, and the run does not wait. -/
def Settled (s : DemandSystem δ α ε) : Prop :=
  s.run.shared.pumpRunning = false ∧ s.run.shared.taskScheduled = false ∧
    s.run.shared.waiting = false ∧ load attends s.run.threads = 0

instance (s : DemandSystem δ α ε) : Decidable (Settled s) := inferInstanceAs (Decidable (_ ∧ _))

theorem Settled.stopped {s : DemandSystem δ α ε} (h : Settled s) (ha : Attended s.run) :
    s.run.shared.terminated = true ∨ s.run.shared.demand = 0 := by
  obtain ⟨hp,hsch,hw,hl⟩ := h
  by_contra hne
  simp only [not_or, Bool.not_eq_true] at hne
  have := ha hne.1 hw (Nat.pos_of_ne_zero hne.2)
  simp [hp, hsch, hl] at this

section Results

variable {g : GraphRun σ α ρ μ ε} {left : σ → List α} {source : σ}
  {s : DemandSystem (GraphState σ α μ) α ε}

/-- A steady run over a path in order.  At any time the sink has a beginning of the meaning of the path
on the source list and no more than it asked for, and a value on its way to the sink has its demand.
When every call of the path succeeds, no bound is exceeded and there are at most 64 FLAT_MAPs, then a
run at rest has handed on exactly the first values, as many as were asked for; a run with unspent
demand that does not wait can move, and however its threads are scheduled it comes to a state in
which the sink has what it asked for, or to one in which the source makes it wait. -/
theorem demand_delivers_prefix (ho : g.path.Ordered)
    (hrel : ∀ st ∈ g.path.stages, st.op.isRelation = false) (hS : g.sources.HandsOn left)
    (h : Reach (demandStep (plane g)) (Opened g source) SteadyDemand s) :
    (s.run.shared.delivered <+: g.path.denote g.options (left source) ∧
      s.run.shared.delivered.length ≤ s.asked ∧
      ∀ i v, deliver i v ∈ s.run.threads → 0 < s.run.shared.demand) ∧
    (g.path.Succeeds g.options (g.path.read (left source)) →
      flatMaps g.path.stages ≤ maxContinuations →
      (Settled s → min s.asked (g.path.denote g.options (left source)).length ≤ sizeMax →
        Served (g.path.denote g.options (left source)) s) ∧
      (¬s.run.shared.Stopped → ∃ (i : Nat) (p : RunPoint α ε), s.run.threads[i]? = some p ∧
        (s.run.shared.move (plane g) p .go).isSome = true) ∧
      ∀ f : Nat → DemandSystem (GraphState σ α μ) α ε, f 0 = s →
        (∀ n, OwnMove (plane g) (f n) (f (n + 1))) →
        ∃ n, (f n).run.shared.waiting = true ∨
          (min (f n).asked (g.path.denote g.options (left source)).length ≤ sizeMax →
            Served (g.path.denote g.options (left source)) (f n))) := by
  refine ⟨?_,fun hsucc hflat => ?_⟩
  · have hinv : SteadyInv g left (g.path.denote g.options (left source)) False s :=
      .reach ho hrel hS nofun nofun h
    have hspent := hinv.ledger.spent
    exact ⟨hinv.ledger.begins,by omega,fun i v hv => (hinv.ledger.onTheWay _ hv).1⟩
  · have hinv : SteadyInv g left (g.path.denote g.options (left source)) True s :=
      .reach ho hrel hS (fun _ => hflat) (fun _ => (succeeds_subscribe source).2 hsucc) h
    refine ⟨fun hset hmax => ?_,hinv.enabled,?_⟩
    · exact hinv.delivered_eq_take trivial hmax (hset.stopped hinv.attended)
    rintro f rfl hf
    obtain ⟨n,hn,hstop⟩ := SteadyInv.stops ho hrel hS (fun _ => hflat) trivial f hinv hf
    refine ⟨n,?_⟩
    rcases hstop with ht | hw | hd
    · exact .inr fun hmax => hn.delivered_eq_take trivial hmax (.inl ht)
    · exact .inl hw
    · exact .inr fun hmax => hn.delivered_eq_take trivial hmax (.inr hd)

end Results

section Arrays

def arrayGraph (stages : List (Stage Nat Unit)) : GraphRun (ArraySource Nat) Nat Unit Unit Unit where
  path := { stages := stages }
  options := { same := (· == ·), le := fun a b => decide (a ≤ b) }
  sources := ArraySource.ops
  relations := noRelations

def arrayDemand (stages : List (Stage Nat Unit)) (values : List Nat) :
    DemandSystem (GraphState (ArraySource Nat) Nat Unit) Nat Unit :=
  { run := { shared := { plane := (arrayGraph stages).subscribe { rest := values } }, threads := [] } }

def sortsPairs : List (Stage Nat Unit) :=
  [{ id := 1, op := .flatMap { invoke := fun x => some { values := [x + 1, x] } } },
    { id := 2, op := .sorted 8 }]

def asksTwice : List (RunAction Nat Unit) :=
  [.enter (.request 2)] ++ List.replicate 5 (.run 0 .go) ++ List.replicate 44 (.run 1 .go) ++
    [.enter (.request 1)] ++ List.replicate 5 (.run 2 .go) ++ List.replicate 9 (.run 3 .go)

theorem asksTwice_served :
    ∃ s, exec (demandStep (plane (arrayGraph sortsPairs))) (arrayDemand sortsPairs [3, 1])
        asksTwice = some s ∧
      (s.asked = 3 ∧ Settled s) ∧ Served [1, 2, 3, 4] s := by
  refine exec_shows_and (by decide +kernel) fun s hs hend => ?_
  have hreach : Reach (demandStep (plane (arrayGraph sortsPairs)))
      (Opened (arrayGraph sortsPairs) { rest := [3, 1] }) SteadyDemand s :=
    .exec_admits (.start rfl) (by decide +kernel) hs
  have h := demand_delivers_prefix (by decide) (by decide) ArraySource.handsOn hreach
  exact (h.2 (by decide) (by decide)).1 hend.2 (by rw [hend.1]; decide)

def manyFlatMaps : List (Stage Nat Unit) :=
  (List.range 65).map fun i => { id := i + 1, op := .flatMap { invoke := fun x => some { values := [x] } } }

/-- A request for two values, then the moves of the first pump and those of a second one. -/
def asksOnce (first second : Nat) : List (RunAction Nat Unit) :=
  [.enter (.request 2)] ++ List.replicate 5 (.run 0 .go) ++ List.replicate first (.run 1 .go) ++
    List.replicate second (.run 2 .go)

/-- A run at rest that has told the sink of an error and has not handed on what was asked for. -/
def EndsShort (stages : List (Stage Nat Unit)) (values : List Nat) : Prop :=
  ∃ s, Reach (demandStep (plane (arrayGraph stages)))
      (Opened (arrayGraph stages) { rest := values }) SteadyDemand s ∧
    Settled s ∧ s.run.shared.error.any (fun m => decide (.error m ∈ s.run.shared.log)) = true ∧
    s.run.shared.delivered ≠
      ((arrayGraph stages).path.denote (arrayGraph stages).options values).take s.asked

/-- The last FLAT_MAP finds no room for its continuation, the DISTINCT none for a second value, the
SORTED none for a second element. -/
theorem exceeded_bounds_end_short :
    EndsShort manyFlatMaps [3] ∧ EndsShort [{ id := 1, op := .distinct 1 }] [3, 4] ∧
      EndsShort [{ id := 1, op := .sorted 1 }] [4, 3] :=
  ⟨exec_shows _ (arrayDemand _ _) (asksOnce 200 9) (by decide +kernel) fun _ hs =>
      .exec_admits (.start rfl) (by decide +kernel) hs,
    exec_shows _ (arrayDemand _ _) (asksOnce 14 0) (by decide +kernel) fun _ hs =>
      .exec_admits (.start rfl) (by decide +kernel) hs,
    exec_shows _ (arrayDemand _ _) (asksOnce 12 0) (by decide +kernel) fun _ hs =>
      .exec_admits (.start rfl) (by decide +kernel) hs⟩

end Arrays

end Salts.CFlow
