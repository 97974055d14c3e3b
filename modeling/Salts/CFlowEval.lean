import Salts.CFlowDataWork

/-!
`cflow_eval_array`: a subscription with unbounded demand on a test scheduler, run until it is idle.
One thread runs the pump tasks one after the other, so the run is a sequence of units of work whose
values the collector takes.
-/

namespace Salts.CFlow

open GraphState LexDescent
open ArraySource

variable {δ σ α ρ μ ε : Type}

/-- How an evaluation ends: `stalled` is a run at rest that has neither ended nor failed. -/
inductive EvalEnd where
  | done
  | error (message : String)
  | stalled
  deriving DecidableEq

/-- At most `n` units of work: the values the collector takes from here on, and the end. -/
def evalUnits (P : Plane δ α ε) : Nat → RunImpl δ α → Option (List α × EvalEnd)
  | 0, _ => none
  | n + 1, r =>
    match RunImpl.processUnit P r 0 with
    | (t, .deliver _ v) =>
      if t.demand = 0 then some ([], .error "runtime produced value without demand")
      else (evalUnits P n { t with demand := t.demand - 1 }).map fun e => (v :: e.1, e.2)
    | (t, .head _) => evalUnits P n t
    | (t, .tail) => if t.runnable P then evalUnits P n t else some ([], .stalled)
    | (_, .fail _ message _) => some ([], .error message)
    | (_, .finish) => some ([], .done)
    | _ => some ([], .stalled)

theorem runnable_of_demand {P : Plane δ α ε} {r : RunImpl δ α}
    (h : 0 < r.demand) : r.runnable P = true := by
  simp only [RunImpl.runnable, h]
  cases P.topFrame r.plane <;> cases P.sourceDone r.plane <;> cases P.nodesDone r.plane <;> simp

def ArraySource.ops : SourceOps (ArraySource α) α Unit where
  resume s _ := s.resume
  poll _ := .opened
  cancel s := s
  event s _ := s

def noRelations : RelationOps α Unit Unit where
  start _ _ := none
  resume _ _ := ((), .done)
  cancel _ := ()

def evalArray (p : Path α ρ) (o : EvalOptions α) (R : RelationOps α ρ μ) (n : Nat) (xs : List α) :
    Option (List α × EvalEnd) :=
  let g : GraphRun (ArraySource α) α ρ μ Unit := ⟨p, o, ops, R⟩
  evalUnits (plane g) n { plane := g.subscribe { rest := xs }, demand := sizeMax }

theorem ArraySource.handsOn : (ops (α := α)).HandsOn rest := by
  have hrest : ∀ s : ArraySource α, s.resume.2 = .done ∧ s.rest = [] ∨
      ∃ v, s.rest = v :: s.resume.1.rest ∧
        (s.resume.2 = .value v ∨ s.resume.2 = .valueAndDone v ∧ s.resume.1.rest = []) := by
    rintro ⟨rest,d⟩
    rcases rest with - | ⟨v,- | ⟨w,rest⟩⟩
    · exact .inl ⟨rfl,rfl⟩
    · exact .inr ⟨v,rfl,.inr ⟨rfl,rfl⟩⟩
    · exact .inr ⟨v,rfl,.inl rfl⟩
  constructor
  case pollDone => exact nofun
  case pollError => exact nofun
  case event => exact rfl
  all_goals
    intro s _
    rcases hrest s with ⟨h,hr⟩ | ⟨v,hr,h | ⟨h,hl⟩⟩ <;> simp_all [ops]

theorem ArraySource.resume_ne_wait (s : ArraySource α) (n : Nat) : (ops.resume s n).2 ≠ .wait := by
  intro h
  simp only [ops, resume] at h
  split at h
  · cases h
  · split at h <;> cases h

section Path

variable {g : GraphRun σ α ρ μ ε} {left : σ → List α}

def EndsAs (g : GraphRun σ α ρ μ ε) (left : σ → List α) (d : GraphState σ α μ) :
    List α × EvalEnd → Prop
  | (vs, .done) =>
    vs = d.rest g left ∧ ((∀ st ∈ g.path.stages, st.op.strict = true) → d.Succeeds g left)
  | (_, .error _) => flatMaps g.path.stages ≤ maxContinuations → ¬d.Succeeds g left
  | (_, .stalled) => False

theorem EndsAs.takes {d d' : GraphState σ α μ} {vs ws : List α} {e : EvalEnd}
    (ht : Takes g left d d' vs) (h : EndsAs g left d' (ws, e)) : EndsAs g left d (vs ++ ws, e) := by
  cases e with
  | done =>
    obtain ⟨hws,hs⟩ := h
    refine ⟨by rw [ht.rest, hws],fun hstrict => ht.recedes hstrict (hs hstrict)⟩
  | error message => exact fun hmax hs => h hmax (ht.succeeds hs)
  | stalled => exact h

theorem evalUnits_ends (ho : g.path.Ordered) (hrel : ∀ st ∈ g.path.stages, st.op.isRelation = false)
    (hS : g.sources.HandsOn left) (hwait : ∀ s n, (g.sources.resume s n).2 ≠ .wait)
    (r : RunImpl (GraphState σ α μ) α) (hinv : PlaneInv g r.plane) (hc : r.cancelRequested = false)
    (hd : (r.plane.rest g left).length < r.demand) :
    ∃ n e, evalUnits (plane g) n r = some e ∧ EndsAs g left r.plane e := by
  -- every unit but the last leaves less work
  induction hw : r.plane.workAt g left using (below_wellFounded g.path.stages.length).induction
    generalizing r with
  | _ w ih =>
  subst hw
  have hstep := unitStep_processUnit hinv ho hrel hc hS 0
  generalize ht : (r.processUnit (plane g) 0).1 = t at hstep
  generalize hq : (r.processUnit (plane g) 0).2 = q at hstep
  have hunit : r.processUnit (plane g) 0 = (t,q) := Prod.ext ht hq
  cases hstep with
  | idle hidle => exact absurd hidle.1 (by omega)
  | goOn d' next htakes hworks =>
    have hlen : (d'.rest g left).length = (r.plane.rest g left).length := by
      rw [htakes.rest, List.nil_append]
    obtain ⟨n,e,hn,he⟩ := ih _ hworks { r with plane := d' } htakes.inv hc (by
      show (d'.rest g left).length < r.demand
      omega) rfl
    refine ⟨n+1,e,?_,he.takes htakes⟩
    have hpos : 0 < r.demand := by omega
    have hrun : RunImpl.runnable (plane g) { r with plane := d' } = true := runnable_of_demand hpos
    cases next with
    | none => simp only [evalUnits, hunit, RunPoint.loop, hrun, if_true, hn]
    | some i => simp only [evalUnits, hunit, RunPoint.loop, hn]
  | value d' v htakes hworks hpos =>
    have hlen : (r.plane.rest g left).length = (d'.rest g left).length+1 := by
      rw [htakes.rest, List.singleton_append, List.length_cons]
    obtain ⟨n,e,hn,he⟩ := ih _ hworks { r with plane := d', demand := r.demand - 1 } htakes.inv hc
      (by show (d'.rest g left).length < r.demand-1; omega) rfl
    refine ⟨n+1,(v :: e.1,e.2),?_,he.takes htakes⟩
    simp [evalUnits, hunit, if_neg (Nat.pos_iff_ne_zero.1 hpos), hn]
  | wait d' htakes hworks hsource =>
    obtain ⟨n,hn⟩ := hsource
    exact absurd hn (hwait _ n)
  | fail d' status message next hs =>
    exact ⟨1,([],.error message),by simp only [evalUnits, hunit],hs⟩
  | finish hrest hs => exact ⟨1,([],.done),by simp only [evalUnits, hunit],hrest.symm,hs⟩

end Path

def Path.EndsAs (p : Path α ρ) (o : EvalOptions α) (xs : List α) : List α × EvalEnd → Prop
  | (vs, .done) => vs = p.denote o xs ∧
      ((∀ st ∈ p.stages, st.op.strict = true) → p.Succeeds o (p.read xs))
  | (_, .error _) => flatMaps p.stages ≤ maxContinuations → ¬p.Succeeds o (p.read xs)
  | (_, .stalled) => False

/-- The interpreter over a path in order, without RELATION: it ends, and it either hands on the meaning
of the path and no call has failed, or it reports an error because some call fails or some bound is
exceeded. -/
theorem evalArray_ends {p : Path α ρ} {o : EvalOptions α} {R : RelationOps α ρ μ} {xs : List α}
    (ho : p.Ordered) (hrel : ∀ st ∈ p.stages, st.op.isRelation = false)
    (hlen : (p.denote o xs).length < sizeMax) :
    ∃ n e, evalArray p o R n xs = some e ∧ p.EndsAs o xs e := by
  let g : GraphRun (ArraySource α) α ρ μ Unit := ⟨p,o,ops,R⟩
  let source : ArraySource α := { rest := xs }
  have hrest : (g.subscribe source).rest g rest = p.denote o xs := rest_subscribe source
  have hsucc : (g.subscribe source).Succeeds g rest ↔ p.Succeeds o (p.read xs) :=
    succeeds_subscribe source
  have hS : g.sources.HandsOn rest := handsOn
  obtain ⟨n,e,hn,he⟩ := evalUnits_ends ho hrel hS resume_ne_wait
    { plane := g.subscribe source, demand := sizeMax } (subscribe_inv source) rfl (by
      rw [hrest]
      exact hlen)
  refine ⟨n,e,hn,?_⟩
  obtain ⟨vs,e⟩ := e
  cases e with
  | done =>
    obtain ⟨hvs,hs⟩ := he
    exact ⟨hvs.trans hrest,fun h => hsucc.1 (hs h)⟩
  | error message => exact fun hmax hs => he hmax (hsucc.2 hs)
  | stalled => exact he

end Salts.CFlow
