import Salts.CFlowDataWork
import Salts.CFlowSubflowInv

/-!
A subscription that nobody cancels or closes, whose posts are accepted and whose sink takes every
value: requests, wakes and events of the source interleaved with the pump in any way.
-/

namespace Salts.CFlow

open ThreadPool RunImpl Transition RunPoint
open GraphState (plane)

variable {δ α ε : Type} {p x : RunPoint α ε}

namespace RunPoint

def steady : RunPoint α ε → Bool
  | .schedule _ _ k => k.plain
  | .posting _ k => k.plain
  | .accepted k => k.plain
  | .releasePosting _ k => k.plain
  | .cancel _ => false
  | .closeClaim => false
  | .closeMark _ => false
  | .closeWait => false
  | .closeDestroy => false
  | .rejected _ _ _ => false
  | .notifyRejected _ _ _ => false
  | .inRejected _ _ => false
  | .releaseRejected _ _ => false
  | .destroy _ => false
  | .free _ => false
  | .closeReturned => false
  | _ => true

def requests : RunPoint α ε → Nat
  | .request n => n
  | _ => 0

def delivers : RunPoint α ε → Nat
  | .deliver _ _ => 1
  | _ => 0

def breaks : RunPoint α ε → Nat
  | .fail _ _ _ => 1
  | _ => 0

theorem steady_back (st : Status) {k : RunReturn} (hk : k.plain = true) :
    (back st k : RunPoint α ε).steady = true := by
  cases k <;> first | rfl | cases hk

@[simp] theorem steady_loop (next : Option Nat) : (loop next : RunPoint α ε).steady = true := by
  cases next <;> rfl

def calm : RunPoint α ε → Bool
  | .deliver _ _ => false
  | .fail _ _ _ => false
  | .finish => false
  | .processUnit _ => false
  | _ => true

@[simp] theorem calm_back (st : Status) (k : RunReturn) :
    (back st k : RunPoint α ε).calm = true := by
  cases k <;> rfl

@[simp] theorem calm_loop (next : Option Nat) : (loop next : RunPoint α ε).calm = true := by
  cases next <;> rfl

theorem delivers_of_calm (h : p.calm = true) : p.delivers = 0 := by
  cases p <;> first | rfl | cases h

theorem breaks_of_calm (h : p.calm = true) : p.breaks = 0 := by
  cases p <;> first | rfl | cases h

end RunPoint

def steadyChoice : RunPoint α ε → RunChoice → Bool
  | .source _, .refuse => true
  | _, .go => true
  | _, _ => false

def exhaustedAt (r : RunImpl δ α) : RunPoint α ε → Bool
  | .schedule _ _ _ => r.admits && r.exhausted
  | _ => false

def Steady (s : RunSystem δ α ε) : RunAction α ε → Prop
  | .enter p => p.steady = true
  | .run i c => (s.threads[i]?).all (fun p => steadyChoice p c && !exhaustedAt s.shared p) = true

instance (s : RunSystem δ α ε) : (a : RunAction α ε) → Decidable (Steady s a)
  | .enter _ => inferInstanceAs (Decidable (_ = true))
  | .run _ _ => inferInstanceAs (Decidable (_ = true))

structure RunImpl.SameData (r t : RunImpl δ α) : Prop where
  log : t.log = r.log
  terminated : t.terminated = r.terminated
  status : t.status = r.status
  plane : t.plane = r.plane
  demand : t.demand = r.demand

inductive SteadyMove (P : Plane δ α ε) (r : RunImpl δ α) :
    RunPoint α ε → RunImpl δ α → RunPoint α ε → List (RunPoint α ε) → Prop
  | quiet {p q : RunPoint α ε} {t : RunImpl δ α} {new : List (RunPoint α ε)} (hs : r.SameData t)
      (hp : p.calm = true) (hr : p.requests = 0 ∨ r.terminated = true)
      (hq : q.calm = true) : SteadyMove P r p t q new
  | takeNothing (i : Nat) (ht : r.terminated = false) :
      SteadyMove P r (.takeCancel i) r (.processUnit i) []
  | request (n : Nat) (ht : r.terminated = false) :
      SteadyMove P r (.request n) (r.addDemand n) (.schedule false true .caller) []
  | source (e : ε) (q : RunPoint α ε) (hq : q.calm = true) :
      SteadyMove P r (.source e) { r with plane := P.event r.plane e } q []
  | unit (i : Nat) :
      SteadyMove P r (.processUnit i) (r.processUnit P i).1 (r.processUnit P i).2 []
  | deliverUnasked (i : Nat) (v : α) (hd : r.demand = 0) :
      SteadyMove P r (.deliver i v) r
        (.fail .executionError "runtime produced value without demand" none) []
  | deliver (i : Nat) (v : α) :
      SteadyMove P r (.deliver i v) { r with demand := r.demand - 1, log := r.log ++ [.value v] }
        (.inValue i) []
  | fail (status : Status) (message : String) (next : Option Nat) (ht : r.terminated = false) :
      SteadyMove P r (.fail status message next) (r.failStatus status message)
        (.notifyError message next) []
  | failEnded (status : Status) (message : String) (next : Option Nat) (ht : r.terminated = true) :
      SteadyMove P r (.fail status message next) r (.loop next) []
  | finish (ht : r.terminated = false) :
      SteadyMove P r .finish { r with terminated := true } .notifyDone []
  | finishEnded (ht : r.terminated = true) : SteadyMove P r .finish r .tail []
  | told (p q : RunPoint α ε) (e : SinkEvent α) (he : e.ends = true) (hpump : p.pumps = 1)
      (hp : p.calm = true) (hq : q.calm = true) : SteadyMove P r p { r with log := r.log ++ [e] } q []

section Moves

variable {P : Plane δ α ε} {r t : RunImpl δ α} {p q : RunPoint α ε} {c : RunChoice}
  {new : List (RunPoint α ε)}

theorem RunImpl.SameData.rfl : r.SameData r := ⟨.refl _,.refl _,.refl _,.refl _,.refl _⟩

theorem move_processUnit {i : Nat} (hm : r.move P (.processUnit i) c = some (t, q, new)) :
    t = (r.processUnit P i).1 ∧ q = (r.processUnit P i).2 ∧ new = [] := by
  cases c <;> simp [move, moveCaller, moveSchedule, movePump] at hm
  exact ⟨hm.1.symm,hm.2.1.symm,hm.2.2⟩

theorem choice_go (hc : steadyChoice p c = true) (hs : ∀ e, p ≠ .source e) : c = .go := by
  cases c with
  | go => rfl
  | refuse =>
    cases p
    case source e => exact absurd rfl (hs e)
    all_goals cases hc
  | _ => cases p <;> cases hc

theorem steady_move (hm : r.move P p c = some (t, q, new)) (hc : steadyChoice p c = true)
    (hp : p.steady = true) (hu : r.Undisturbed) :
    q.steady = true ∧ (∀ x ∈ new, x.steady = true) ∧ t.Undisturbed ∧ SteadyMove P r p t q new := by
  by_cases hunit : ∃ i, p = .processUnit i
  · obtain ⟨i,rfl⟩ := hunit
    obtain ⟨rfl,rfl,rfl⟩ := move_processUnit hm
    have hmv : RunMove P r (.processUnit i) (r.processUnit P i).1 (r.processUnit P i).2 [] :=
      RunMove.of_processUnit i
    refine ⟨?_,by simp,?_,.unit i⟩
    · generalize (r.processUnit P i).1 = t' at hmv
      generalize (r.processUnit P i).2 = q' at hmv
      cases hmv <;> first | rfl | exact steady_loop _
    · generalize (r.processUnit P i).2 = q' at hmv
      generalize (r.processUnit P i).1 = t' at hmv
      cases hmv <;> exact ⟨hu.1,hu.2,hu.3,hu.4,hu.5⟩
  obtain ⟨h1,h2,h3,h4,h5⟩ := id hu
  have hgo := choice_go hc
  cases RunMove.of_move hm
  case unitLoop i _ _ _ _ | unitValue i _ _ _ _ | unitWait i _ _ _ | unitFail i _ _ _ _ _ _ |
      unitFinish i _ =>
    exact absurd ⟨i,rfl⟩ hunit
  case requestEnds n status hend =>
    refine ⟨rfl,by simp,hu,.quiet .rfl rfl ?_ rfl⟩
    rcases hend with hf | hz | hcl | ht
    · exact absurd h5 hf
    · exact .inl hz
    · rw [h4] at hcl
      cases hcl
    · exact .inr ht
  case request n _ ht => exact ⟨rfl,by simp,⟨h1,h2,h3,h4,h5⟩,.request n ht⟩
  case wakeEnds hf => exact absurd h5 hf
  case wake => exact ⟨rfl,by simp,⟨h1,h2,h3,h4,h5⟩,.quiet ⟨rfl,rfl,rfl,rfl,rfl⟩ rfl (.inl rfl) rfl⟩
  case source e => exact ⟨rfl,by simp,⟨h1,h2,h3,h4,h5⟩,.source e _ rfl⟩
  case sourceSilent e _ => exact ⟨rfl,by simp,⟨h1,h2,h3,h4,h5⟩,.source e _ rfl⟩
  case unposted f published k _ =>
    exact ⟨steady_back _ hp,by simp,⟨h1,h2,h3,h4,h5⟩,
      .quiet ⟨rfl,rfl,rfl,rfl,rfl⟩ rfl (.inl rfl) (calm_back _ _)⟩
  case releasePosting st k _ =>
    exact ⟨steady_back _ hp,by simp,⟨h1,h2,h3,h4,h5⟩,
      .quiet ⟨rfl,rfl,rfl,rfl,rfl⟩ rfl (.inl rfl) (calm_back _ _)⟩
  case releasePostingDestroys hd | releaseTaskDestroys hd =>
    simp [(releaseTaskRef_destroys hd).2.1] at h3
  case takeCancel hq => simp [h1] at hq
  case refusePost | refuseValue | closeInValue | armFails | closeInDone | taskEnded | taskCancelled =>
    cases hgo (by simp)
    simp [move, moveCaller, moveSchedule, movePump] at hm
  case closeInError next =>
    cases hgo (by simp)
    cases next <;> simp [move, moveCaller, moveSchedule, movePump,
      loop] at hm
  case takeNothing i ht => exact ⟨rfl,by simp,hu,.takeNothing i ht⟩
  case deliverUnasked i v hd => exact ⟨rfl,by simp,hu,.deliverUnasked i v hd⟩
  case deliver i v => exact ⟨rfl,by simp,⟨h1,h2,h3,h4,h5⟩,.deliver i v⟩
  case failEnded st m next ht =>
    exact ⟨steady_loop _,by simp,hu,.failEnded st m next ht⟩
  case fail st m next ht => exact ⟨rfl,by simp,⟨h1,h2,h3,h4,h5⟩,.fail st m next ht⟩
  case notifyError m next =>
    exact ⟨rfl,by simp,⟨h1,h2,h3,h4,h5⟩,.told _ _ (.error m) rfl rfl rfl rfl⟩
  case notifyDone => exact ⟨rfl,by simp,⟨h1,h2,h3,h4,h5⟩,.told _ _ .done rfl rfl rfl rfl⟩
  case finishEnded ht => exact ⟨rfl,by simp,hu,.finishEnded ht⟩
  case finish ht => exact ⟨rfl,by simp,⟨h1,h2,h3,h4,h5⟩,.finish ht⟩
  case inError next =>
    exact ⟨steady_loop _,by simp,hu,.quiet .rfl rfl (.inl rfl) (calm_loop _)⟩
  case post g k =>
    exact ⟨hp,by simp [steady],hu,.quiet .rfl rfl (.inl rfl) rfl⟩
  case admitPump f published k _ | accepted k =>
    exact ⟨hp,by simp,⟨h1,h2,h3,h4,h5⟩,.quiet ⟨rfl,rfl,rfl,rfl,rfl⟩ rfl (.inl rfl) rfl⟩
  all_goals first
    | exact ⟨rfl,by simp,⟨h1,h2,h3,h4,h5⟩,.quiet ⟨rfl,rfl,rfl,rfl,rfl⟩ rfl (.inl rfl) rfl⟩
    | cases hp

end Moves

/-! ### The ledger of a steady run -/

open GraphState

variable {δ σ α ρ μ ε : Type}

def RunImpl.delivered (r : RunImpl δ α) : List α := r.log.filterMap SinkEvent.given

structure DemandSystem (δ α ε : Type) where
  run : RunSystem δ α ε
  asked : Nat := 0

def asksFor (s : RunSystem δ α ε) : RunAction α ε → Nat
  | .run i _ => (s.threads[i]?.map requests).getD 0
  | .enter _ => 0

def demandStep (P : Plane δ α ε) (s : DemandSystem δ α ε) (a : RunAction α ε) :
    Option (DemandSystem δ α ε) :=
  (runStep P s.run a).map fun t => { run := t, asked := s.asked + asksFor s.run a }

def SteadyDemand (s : DemandSystem δ α ε) (a : RunAction α ε) : Prop := Steady s.run a

instance (s : DemandSystem δ α ε) (a : RunAction α ε) : Decidable (SteadyDemand s a) :=
  inferInstanceAs (Decidable (Steady s.run a))

/-- A subscription of `g` to the source `s`, as `cflow_subscribe` leaves it. -/
def Opened (g : GraphRun σ α ρ μ ε) (source : σ) (s : DemandSystem (GraphState σ α μ) α ε) : Prop :=
  s = { run := { shared := { plane := g.subscribe source }, threads := [] } }

def OnTheWay (g : GraphRun σ α ρ μ ε) (left : σ → List α) (out : List α)
    (r : RunImpl (GraphState σ α μ) α) : RunPoint α ε → Prop
  | .deliver _ v => 0 < r.demand ∧ r.delivered ++ v :: r.plane.rest g left = out
  | .finish => r.plane.rest g left = []
  | _ => True

/-- The invariant of a steady run whose path makes `out` of the source list; `fits` is that every
call succeeds and every bound is kept. -/
structure DemandInv (g : GraphRun σ α ρ μ ε) (left : σ → List α) (out : List α) (fits : Prop)
    (s : DemandSystem (GraphState σ α μ) α ε) : Prop where
  run : RunInv s.run
  steady : ∀ p ∈ s.run.threads, p.steady = true
  undisturbed : s.run.shared.Undisturbed
  plane : s.run.shared.terminated = false → load breaks s.run.threads = 0 →
    PlaneInv g s.run.shared.plane
  ledger : s.run.shared.terminated = false → load breaks s.run.threads = 0 →
    load delivers s.run.threads = 0 →
    s.run.shared.delivered ++ s.run.shared.plane.rest g left = out
  onTheWay : ∀ p ∈ s.run.threads, OnTheWay g left out s.run.shared p
  begins : s.run.shared.delivered <+: out
  ended : s.run.shared.terminated = true → s.run.shared.status = .ok → s.run.shared.delivered = out
  bounded : s.run.shared.demand ≤ sizeMax
  spent : s.run.shared.demand + s.run.shared.delivered.length ≤ s.asked
  owed : s.run.shared.terminated = true ∨
    s.asked ≤ s.run.shared.demand + s.run.shared.delivered.length ∨
    sizeMax ≤ s.run.shared.demand + s.run.shared.delivered.length
  fits : fits → load breaks s.run.threads = 0 ∧ s.run.shared.status = .ok ∧
    (s.run.shared.terminated = false → s.run.shared.plane.Succeeds g left)

section Loads

variable {s : RunSystem δ α ε} {p : RunPoint α ε} {i : Nat} {w : RunPoint α ε → Nat}

theorem load_eq_zero {threads : List (RunPoint α ε)} (h : ∀ p ∈ threads, w p = 0) :
    load w threads = 0 := by
  by_contra hne
  obtain ⟨p,hp,hpos⟩ := exists_of_load_pos (Nat.pos_of_ne_zero hne)
  have := h p hp
  omega

theorem RunInv.load_pump (h : RunInv s) (hp : s.threads[i]? = some p) (hpump : p.pumps = 1)
    (hw : ∀ x : RunPoint α ε, x.pumps = 0 → w x = 0) : load w s.threads = w p := by
  have hset := load_set (w := w) (q := .wake) hp
  have hwake := hw .wake rfl
  have hzero : load w (s.threads.set i .wake) = 0 := by
    refine load_eq_zero fun x hx => ?_
    obtain ⟨j,hj⟩ := List.getElem?_of_mem hx
    by_cases hij : i = j
    · subst hij
      obtain ⟨_,rfl⟩ := List.getElem?_eq_some_iff.1 hj
      simpa using hwake
    · rw [List.getElem?_set_ne hij] at hj
      exact hw x (h.other_pumps hp (.inl hpump) hj (Ne.symm hij))
  omega

theorem load_unchanged {threads new : List (RunPoint α ε)} {q : RunPoint α ε}
    (hp : threads[i]? = some p) (hw : w q = w p) (hnew : ∀ x ∈ new, w x = 0) :
    load w (threads.set i q ++ new) = load w threads := by
  have := load_step (w := w) q new hp
  rw [load_eq_zero hnew] at this
  omega

theorem RunInv.load_pump_moved {q : RunPoint α ε} (h : RunInv s) (hp : s.threads[i]? = some p)
    (hpump : p.pumps = 1) (hw : ∀ x : RunPoint α ε, x.pumps = 0 → w x = 0) :
    load w (s.threads.set i q ++ []) = w q := by
  have hstep := load_step (w := w) q [] hp
  rw [h.load_pump hp hpump hw, load_nil] at hstep
  omega

theorem RunPoint.delivers_of_pumps (h : x.pumps = 0) : x.delivers = 0 := by
  cases x <;> first | rfl | cases h

theorem RunPoint.breaks_of_pumps (h : x.pumps = 0) : x.breaks = 0 := by
  cases x <;> first | rfl | cases h

theorem RunInv.pump_loads (h : RunInv s) (hp : s.threads[i]? = some p) (hpump : p.pumps = 1) :
    load breaks s.threads = p.breaks ∧ load delivers s.threads = p.delivers :=
  ⟨h.load_pump hp hpump fun _ => breaks_of_pumps,h.load_pump hp hpump fun _ => delivers_of_pumps⟩

end Loads

section Data

variable {g : GraphRun σ α ρ μ ε} {left : σ → List α} {out : List α}
  {r t : RunImpl (GraphState σ α μ) α} {p : RunPoint α ε}

theorem OnTheWay.of_pumps (h : p.pumps = 0) : OnTheWay g left out r p := by
  cases p <;> trivial

theorem OnTheWay.of_calm (h : p.calm = true) : OnTheWay g left out r p := by
  cases p <;> trivial

theorem OnTheWay.mono (h : OnTheWay g left out r p) (hlog : t.delivered = r.delivered)
    (hrest : t.plane.rest g left = r.plane.rest g left) (hle : r.demand ≤ t.demand) :
    OnTheWay g left out t p := by
  cases p with
  | deliver i v =>
    rw [OnTheWay, hlog, hrest]
    exact ⟨Nat.lt_of_lt_of_le h.1 hle,h.2⟩
  | finish =>
    rw [OnTheWay, hrest]
    exact h
  | _ => trivial

theorem delivered_append (e : SinkEvent α) :
    delivered { r with log := r.log ++ [e] } = r.delivered ++ e.given.toList := by
  simp only [delivered]
  cases he : e.given <;> simp [he]

theorem given_of_ends {e : SinkEvent α} (h : e.ends = true) : e.given = none := by
  cases e <;> first | rfl | cases h

theorem event_sourceLeft (hS : g.sources.HandsOn left) (d : GraphState σ α μ) (e : ε) :
    ((plane g).event d e).sourceLeft left = d.sourceLeft left := by
  show (if d.sourceDone then [] else left (g.sources.event d.source e)) = _
  rw [hS.event]
  rfl

theorem event_rest (hS : g.sources.HandsOn left) (d : GraphState σ α μ) (e : ε) :
    ((plane g).event d e).rest g left = d.rest g left ∧
      (((plane g).event d e).Succeeds g left ↔ d.Succeeds g left) := by
  have hsame : SameFrom d ((plane g).event d e) 0 := ⟨fun _ _ => rfl,fun _ _ => .of_filter rfl⟩
  constructor
  · simp [rest, event_sourceLeft hS, outFrom_congr hsame]
  · simp [Succeeds, Succeeding, event_sourceLeft hS, succeedsFrom_congr hsame]

theorem event_inv (hS : g.sources.HandsOn left) {d : GraphState σ α μ} (h : PlaneInv g d) (e : ε) :
    PlaneInv g ((plane g).event d e) := by
  have : Takes g left d ((plane g).event d e) [] := .source h id (event_sourceLeft hS d e) rfl rfl
  exact this.inv

end Data

namespace DemandInv

variable {g : GraphRun σ α ρ μ ε} {left : σ → List α} {out : List α} {good : Prop}
  {s : DemandSystem (GraphState σ α μ) α ε} {t : RunImpl (GraphState σ α μ) α}
  {p q : RunPoint α ε} {new : List (RunPoint α ε)} {i : Nat}

def moved (s : DemandSystem δ α ε) (i : Nat) (p : RunPoint α ε) (t : RunImpl δ α) (q : RunPoint α ε)
    (new : List (RunPoint α ε)) : DemandSystem δ α ε :=
  { run := { shared := t, threads := s.run.threads.set i q ++ new }, asked := s.asked + p.requests }

theorem opened {source : σ} (h : Opened g source s)
    (hgood : good → (g.subscribe source).Succeeds g left) :
    DemandInv g left (g.path.denote g.options (left source)) good s := by
  subst h
  refine ⟨.subscribed ⟨rfl,_,rfl⟩,nofun,⟨rfl,rfl,rfl,rfl,rfl⟩,fun _ _ => subscribe_inv source,
    fun _ _ _ => ?_,nofun,List.nil_prefix,nofun,Nat.zero_le _,le_rfl,.inr (.inl le_rfl),
    fun hg => ⟨rfl,rfl,fun _ => hgood hg⟩⟩
  simpa [delivered] using rest_subscribe source

section

variable (h : DemandInv g left out good s)

include h

theorem enter (he : p.entry = true) (hp : p.steady = true) :
    DemandInv g left out good
      { run := { shared := s.run.shared, threads := s.run.threads ++ [p] }, asked := s.asked } := by
  have hcalm : p.calm = true := by cases p <;> first | rfl | cases he
  have hb := load_enter s.run.threads (breaks_of_calm hcalm)
  have hd := load_enter s.run.threads (delivers_of_calm hcalm)
  refine ⟨h.run.enter he,?_,h.undisturbed,?_,?_,?_,h.begins,h.ended,h.bounded,h.spent,h.owed,?_⟩
  · simpa [or_imp, forall_and, hp] using h.steady
  · simpa only [hb] using h.plane
  · simpa only [hb, hd] using h.ledger
  · intro x hx
    rcases List.mem_append.1 hx with hx | hx
    · exact h.onTheWay x hx
    · obtain rfl := List.mem_singleton.1 hx
      exact .of_calm hcalm
  · simpa only [hb] using h.fits

theorem keep (hp : s.run.threads[i]? = some p) (hrun : RunInv (moved s i p t q new).run)
    (hu : t.Undisturbed) (hq : q.steady = true) (hnew : ∀ x ∈ new, x.steady = true ∧ x.calm = true)
    (hpq : p.breaks = 0 ∧ q.breaks = 0 ∧ p.delivers = 0 ∧ q.delivers = 0)
    (hlog : t.delivered = s.run.shared.delivered) (hterm : t.terminated = s.run.shared.terminated)
    (hst : t.status = s.run.shared.status)
    (hinv : PlaneInv g s.run.shared.plane → PlaneInv g t.plane)
    (hrest : t.plane.rest g left = s.run.shared.plane.rest g left)
    (hsucc : s.run.shared.plane.Succeeds g left → t.plane.Succeeds g left)
    (hle : s.run.shared.demand ≤ t.demand) (hmax : t.demand ≤ sizeMax)
    (hway : OnTheWay g left out t q) (hspent : t.demand ≤ s.run.shared.demand + p.requests)
    (howed : t.terminated = true ∨ t.demand = s.run.shared.demand + p.requests ∨ sizeMax ≤ t.demand) :
    DemandInv g left out good (moved s i p t q new) := by
  have hb := load_unchanged (w := breaks) (q := q) hp (by omega)
    fun x hx => breaks_of_calm (hnew x hx).2
  have hd := load_unchanged (w := delivers) (q := q) hp (by omega)
    fun x hx => delivers_of_calm (hnew x hx).2
  have hspent₀ := h.spent
  refine ⟨hrun,?_,hu,?_,?_,?_,?_,?_,hmax,?_,?_,?_⟩
  · exact forall_move (T := fun (_) (p) => p.steady = true) (x := ()) (u := ())
      h.steady hq (fun x hx => (hnew x hx).1) (fun _ _ _ _ hx => hx)
  · intro ht hbz
    exact hinv (h.plane (hterm ▸ ht) (hb ▸ hbz))
  · intro ht hbz hdz
    show t.delivered ++ t.plane.rest g left = out
    rw [hlog, hrest]
    exact h.ledger (hterm ▸ ht) (hb ▸ hbz) (hd ▸ hdz)
  · exact forall_move h.onTheWay hway
      (fun x hx => .of_calm (hnew x hx).2) fun j x _ _ hx => hx.mono hlog hrest hle
  · show t.delivered <+: out
    rw [hlog]
    exact h.begins
  · intro ht hok
    show t.delivered = out
    rw [hlog]
    exact h.ended (hterm ▸ ht) (hst ▸ hok)
  · show t.demand+t.delivered.length ≤ s.asked+p.requests
    rw [hlog]
    omega
  · show t.terminated = true ∨ s.asked+p.requests ≤ t.demand+t.delivered.length ∨
      sizeMax ≤ t.demand+t.delivered.length
    rw [hlog]
    rcases howed with ht | heq | hmax
    · exact .inl ht
    · rcases h.owed with ht | hle | hmax
      · exact .inl (hterm ▸ ht)
      · exact .inr (.inl (by omega))
      · exact .inr (.inr (by omega))
    · exact .inr (.inr (by omega))
  · intro hg
    obtain ⟨h1,h2,h3⟩ := h.fits hg
    refine ⟨by rw [← h1]; exact hb,hst ▸ h2,fun ht => hsucc (h3 (hterm ▸ ht))⟩

theorem pump (hp : s.run.threads[i]? = some p) (hpump : p.pumps = 1) (hreq : p.requests = 0)
    (hrun : RunInv (moved s i p t q []).run) (hu : t.Undisturbed) (hq : q.steady = true)
    (hplane : t.terminated = false → q.breaks = 0 → PlaneInv g t.plane)
    (hledger : t.terminated = false → q.breaks = 0 → q.delivers = 0 →
      t.delivered ++ t.plane.rest g left = out)
    (hway : OnTheWay g left out t q) (hbegins : t.delivered <+: out)
    (hended : t.terminated = true → t.status = .ok → t.delivered = out)
    (hcount : t.terminated = true ∧ t.demand + t.delivered.length ≤
        s.run.shared.demand + s.run.shared.delivered.length ∨
      t.demand + t.delivered.length = s.run.shared.demand + s.run.shared.delivered.length)
    (hterm : s.run.shared.terminated = true → t.terminated = true)
    (hle : t.demand ≤ s.run.shared.demand) (hfits : good → q.breaks = 0 ∧ t.status = .ok ∧
      (t.terminated = false → t.plane.Succeeds g left)) :
    DemandInv g left out good (moved s i p t q []) := by
  have hb : load breaks (s.run.threads.set i q ++ []) = q.breaks :=
    h.run.load_pump_moved hp hpump fun _ => breaks_of_pumps
  have hd : load delivers (s.run.threads.set i q ++ []) = q.delivers :=
    h.run.load_pump_moved hp hpump fun _ => delivers_of_pumps
  have hspent₀ := h.spent
  refine ⟨hrun,?_,hu,?_,?_,?_,hbegins,hended,Nat.le_trans hle h.bounded,?_,?_,?_⟩
  · exact forall_move (T := fun (_) (p : RunPoint α ε) => p.steady = true) (x := ()) (u := ())
      h.steady hq nofun (fun _ _ _ _ hx => hx)
  · exact fun ht hz => hplane ht (hb ▸ hz)
  · exact fun ht hz hz' => hledger ht (hb ▸ hz) (hd ▸ hz')
  · exact forall_move h.onTheWay hway nofun
      fun j x hij hj _ => .of_pumps (h.run.other_pumps hp (.inl hpump) hj hij)
  · show t.demand+t.delivered.length ≤ s.asked+p.requests
    omega
  · show t.terminated = true ∨ s.asked+p.requests ≤ t.demand+t.delivered.length ∨
      sizeMax ≤ t.demand+t.delivered.length
    rcases hcount with ⟨ht,-⟩ | heq
    · exact .inl ht
    rcases h.owed with ht | hle | hmax
    · exact .inl (hterm ht)
    · exact .inr (.inl (by omega))
    · exact .inr (.inr (by omega))
  · intro hg
    obtain ⟨h1,h2,h3⟩ := hfits hg
    exact ⟨by rw [← h1]; exact hb,h2,h3⟩

end

section Move

variable (h : DemandInv g left out good s) (hp : s.run.threads[i]? = some p)

include h hp

theorem unit {k : Nat} (hpk : p = .processUnit k) (hgood : good → flatMaps g.path.stages ≤ maxContinuations)
    (hrun : RunInv (moved s i p t q []).run) (hu : t.Undisturbed) (hq : q.steady = true)
    (hstep : UnitStep g left s.run.shared k t q) :
    DemandInv g left out good (moved s i p t q []) := by
  subst hpk
  have hmem := List.mem_of_getElem? hp
  have hopen := h.run.opened _ hmem rfl
  obtain ⟨hb,hd⟩ := h.run.pump_loads hp rfl
  have hledger := h.ledger hopen hb hd
  have hclosed : s.run.shared.terminated = true → False := by rw [hopen]; exact nofun
  cases hstep with
  | idle hidle =>
    exact h.pump hp rfl rfl hrun hu hq (fun _ _ => h.plane hopen hb) (fun _ _ _ => hledger) trivial
      h.begins h.ended (.inr rfl) id le_rfl fun hg => ⟨rfl,(h.fits hg).2⟩
  | goOn d' next ht hw =>
    have hcalm := calm_loop (α := α) (ε := ε) next
    refine h.pump hp rfl rfl hrun hu hq (fun _ _ => ht.inv) (fun _ _ _ => ?_) (.of_calm hcalm)
      h.begins (fun ht' => (hclosed ht').elim) (.inr rfl) id le_rfl fun hg =>
        ⟨breaks_of_calm hcalm,(h.fits hg).2.1,fun _ => ht.succeeds ((h.fits hg).2.2 hopen)⟩
    rw [ht.rest] at hledger
    exact hledger
  | value d' v ht hw hdem =>
    refine h.pump hp rfl rfl hrun hu hq (fun _ _ => ht.inv) (fun _ _ => nofun) ⟨hdem,?_⟩
      h.begins (fun ht' => (hclosed ht').elim) (.inr rfl) id le_rfl fun hg =>
        ⟨rfl,(h.fits hg).2.1,fun _ => ht.succeeds ((h.fits hg).2.2 hopen)⟩
    rw [ht.rest] at hledger
    exact hledger
  | wait d' ht hw hsource =>
    refine h.pump hp rfl rfl hrun hu hq (fun _ _ => ht.inv) (fun _ _ _ => ?_) trivial
      h.begins (fun ht' => (hclosed ht').elim) (.inr rfl) id le_rfl fun hg =>
        ⟨rfl,(h.fits hg).2.1,fun _ => ht.succeeds ((h.fits hg).2.2 hopen)⟩
    rw [ht.rest] at hledger
    exact hledger
  | fail d' status message next hs =>
    exact h.pump hp rfl rfl hrun hu hq (fun _ => nofun) (fun _ => nofun) trivial h.begins
      (fun ht' => (hclosed ht').elim) (.inr rfl) id le_rfl fun hg =>
        absurd ((h.fits hg).2.2 hopen) (hs (hgood hg))
  | finish hrest hsucc =>
    exact h.pump hp rfl rfl hrun hu hq (fun _ _ => h.plane hopen hb) (fun _ _ _ => hledger) hrest
      h.begins h.ended (.inr rfl) id le_rfl fun hg => ⟨rfl,(h.fits hg).2⟩

theorem move (ho : g.path.Ordered) (hrel : ∀ st ∈ g.path.stages, st.op.isRelation = false)
    (hS : g.sources.HandsOn left) (hgood : good → flatMaps g.path.stages ≤ maxContinuations)
    {c : RunChoice} (hm : s.run.shared.move (GraphState.plane g) p c = some (t, q, new))
    (hc : steadyChoice p c = true) : DemandInv g left out good (moved s i p t q new) := by
  have hmem := List.mem_of_getElem? hp
  have hmv := RunMove.of_move hm
  obtain ⟨hq,hnews,hu,hsm⟩ := steady_move hm hc (h.steady p hmem) h.undisturbed
  have hrun := h.run.move hp hmv
  have hnew : ∀ x ∈ new, x.steady = true ∧ x.calm = true := by
    intro x hx
    obtain ⟨gen,rfl⟩ := hmv.started_task x hx
    exact ⟨rfl,rfl⟩
  cases hsm with
  | quiet hs hpc hr hqc =>
    refine h.keep hp hrun hu hq hnew ⟨breaks_of_calm hpc,breaks_of_calm hqc,
      delivers_of_calm hpc,delivers_of_calm hqc⟩
      (by simp [delivered, hs.log]) hs.terminated hs.status ?_ ?_ ?_
      (Nat.le_of_eq hs.demand.symm) (hs.demand ▸ h.bounded) (.of_calm hqc) (by rw [hs.demand]; omega) ?_
    · rw [hs.plane]
      exact id
    · rw [hs.plane]
    · rw [hs.plane]
      exact id
    · rcases hr with hz | ht
      · exact .inr (.inl (by rw [hs.demand, hz, Nat.add_zero]))
      · exact .inl (by rw [hs.terminated, ht])
  | takeNothing k ht =>
    exact h.keep hp hrun hu hq hnew ⟨rfl,rfl,rfl,rfl⟩ rfl rfl rfl id rfl id le_rfl
      h.bounded trivial le_rfl (.inr (.inl rfl))
  | request n ht =>
    refine h.keep hp hrun hu hq hnew ⟨rfl,rfl,rfl,rfl⟩ rfl rfl rfl id rfl id ?_ ?_ trivial ?_ ?_
    all_goals simp [addDemand, requests]
    · have := h.bounded
      omega
    all_goals omega
  | source e _ hqc =>
    exact h.keep hp hrun hu hq hnew ⟨rfl,breaks_of_calm hqc,rfl,
      delivers_of_calm hqc⟩ rfl rfl rfl (fun hi => event_inv hS hi e)
      (event_rest hS _ e).1 (event_rest hS _ e).2.2 le_rfl h.bounded (.of_calm hqc)
      le_rfl (.inr (.inl rfl))
  | unit k =>
    have hopen := h.run.opened _ hmem rfl
    obtain ⟨hb,-⟩ := h.run.pump_loads hp rfl
    exact h.unit hp rfl hgood hrun hu hq
      (unitStep_processUnit (h.plane hopen hb) ho hrel h.undisturbed.cancelRequested hS k)
  | deliverUnasked k v hd =>
    have := (h.onTheWay _ hmem).1
    omega
  | deliver k v =>
    obtain ⟨hd,hout⟩ := h.onTheWay _ hmem
    have hopen := h.run.opened _ hmem rfl
    obtain ⟨hb,-⟩ := h.run.pump_loads hp rfl
    have hlog := delivered_append (r := s.run.shared) (.value v)
    have hbegins : s.run.shared.delivered ++ [v] ++ s.run.shared.plane.rest g left = out := by
      rw [List.append_assoc]
      exact hout
    refine h.pump hp rfl rfl hrun hu hq (fun _ _ => h.plane hopen hb) (fun _ _ _ => ?_) trivial
      ⟨_,hlog ▸ hbegins⟩ ?_ (.inr ?_) id (Nat.sub_le _ _) fun hg => ⟨rfl,(h.fits hg).2⟩
    · exact hlog ▸ hbegins
    · intro ht
      rw [hopen] at ht
      cases ht
    · have hlen : (delivered { s.run.shared with log := s.run.shared.log ++ [.value v] }).length
          = s.run.shared.delivered.length+1 := by
        rw [hlog]
        simp [SinkEvent.given]
      show s.run.shared.demand-1 +
        (delivered { s.run.shared with log := s.run.shared.log ++ [.value v] }).length = _
      omega
  | fail status message next ht =>
    refine h.pump hp rfl rfl hrun hu hq (by rintro ⟨⟩) (by rintro ⟨⟩) trivial h.begins ?_ (.inr rfl) (fun _ => rfl)
      le_rfl fun hg => ?_
    · intro _ hok
      cases status <;> cases hok
    · have := weight_le_load (w := breaks) hmem
      simp [(h.fits hg).1, breaks] at this
  | failEnded status message next ht =>
    have hcalm := calm_loop (α := α) (ε := ε) next
    have hclosed : s.run.shared.terminated = false → False := by rw [ht]; simp
    refine h.pump hp rfl rfl hrun hu hq (fun hf => (hclosed hf).elim) (fun hf => (hclosed hf).elim)
      (.of_calm hcalm) h.begins h.ended (.inr rfl) id le_rfl fun hg => ?_
    have := weight_le_load (w := breaks) hmem
    simp [(h.fits hg).1, breaks] at this
  | finish ht =>
    obtain ⟨hb,hd⟩ := h.run.pump_loads hp rfl
    have hledger := h.ledger ht hb hd
    have hrest := h.onTheWay _ hmem
    rw [hrest, List.append_nil] at hledger
    exact h.pump hp rfl rfl hrun hu hq (by simp) (by simp) trivial h.begins (fun _ _ => hledger) (.inr rfl)
      (fun _ => rfl) le_rfl fun hg => ⟨rfl,(h.fits hg).2.1,by simp⟩
  | finishEnded ht =>
    have hclosed : s.run.shared.terminated = false → False := by rw [ht]; simp
    exact h.pump hp rfl rfl hrun hu hq (fun hf => (hclosed hf).elim) (fun hf => (hclosed hf).elim)
      trivial h.begins h.ended (.inr rfl) id le_rfl fun hg =>
        ⟨rfl,(h.fits hg).2.1,fun hf => (hclosed hf).elim⟩
  | told _ _ e he hpump hpc hqc =>
    obtain ⟨hb,hd⟩ := h.run.pump_loads hp hpump
    rw [breaks_of_calm hpc] at hb
    rw [delivers_of_calm hpc] at hd
    have hlog : delivered { s.run.shared with log := s.run.shared.log ++ [e] } =
        s.run.shared.delivered := by
      rw [delivered_append, given_of_ends he]
      exact List.append_nil _
    have hreq : p.requests = 0 := by cases p <;> first | rfl | cases hpump
    refine h.pump hp hpump hreq hrun hu hq (fun ht _ => h.plane ht hb) (fun ht _ _ => ?_)
      (.of_calm hqc) (hlog ▸ h.begins) (hlog ▸ h.ended) (.inr (by rw [hlog])) id le_rfl
      fun hg => ⟨breaks_of_calm hqc,(h.fits hg).2⟩
    rw [hlog]
    exact h.ledger ht hb hd

end Move

end DemandInv

end Salts.CFlow
