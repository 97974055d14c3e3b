import Salts.CFlowDataUnit
import Salts.CFlowRunPump

/-!
What one unit of the pump can do to the data plane of a subscription.
-/

namespace Salts.CFlow

namespace GraphState

variable {σ α ρ μ ε : Type} {g : GraphRun σ α ρ μ ε} {left : σ → List α} {d : GraphState σ α μ}
  {f : Frame α μ} {fs : List (Frame α μ)}

theorem popFrame_works (hinv : PlaneInv g d)
    (hfr : d.frames = f :: fs) (hd : f.done = true) : Works g left { d with frames := fs } d := by
  obtain ⟨-,st,hst,-⟩ := hinv.machine f (by simp [hfr])
  obtain ⟨hlen,-⟩ := List.getElem?_eq_some_iff.1 hst
  refine ⟨f.position+1,hlen,fun i hi => ?_,?_⟩
  · cases i with
    | zero => exact le_rfl
    | succ j =>
      simp only [workAt, hfr, frameWork_cons]
      omega
  · simp only [workAt, hfr, frameWork_cons, if_true, Frame.work, hd]
    omega

def Idle (g : GraphRun σ α ρ μ ε) (r : RunImpl (GraphState σ α μ) α) : Prop :=
  r.demand = 0 ∧ r.runnable (plane g) = false

/-- Everything `process_unit` can do to the data plane of a run that nobody cancels. -/
inductive UnitStep (g : GraphRun σ α ρ μ ε) (left : σ → List α) (r : RunImpl (GraphState σ α μ) α)
    (i : Nat) : RunImpl (GraphState σ α μ) α → RunPoint α ε → Prop
  | idle (h : Idle g r) : UnitStep g left r i r .tail
  | goOn (d' : GraphState σ α μ) (next : Option Nat) (ht : Takes g left r.plane d' [])
      (hw : Works g left d' r.plane) : UnitStep g left r i { r with plane := d' } (.loop next)
  | value (d' : GraphState σ α μ) (v : α) (ht : Takes g left r.plane d' [v])
      (hw : Works g left d' r.plane) (hd : 0 < r.demand) :
      UnitStep g left r i { r with plane := d' } (.deliver i v)
  | wait (d' : GraphState σ α μ) (ht : Takes g left r.plane d' [])
      (hw : d'.workAt g left = r.plane.workAt g left)
      (hsource : ∃ n, (g.sources.resume r.plane.source n).2 = .wait) :
      UnitStep g left r i { r with plane := d' } (.arm i)
  | fail (d' : GraphState σ α μ) (status : Status) (message : String) (next : Option Nat)
      (hs : flatMaps g.path.stages ≤ maxContinuations → ¬r.plane.Succeeds g left) :
      UnitStep g left r i { r with plane := d' } (.fail status message next)
  | finish (h : r.plane.rest g left = [])
      (hs : (∀ st ∈ g.path.stages, st.op.strict = true) → r.plane.Succeeds g left) :
      UnitStep g left r i r .finish

section ProcessUnit

variable {r : RunImpl (GraphState σ α μ) α} {i : Nat}

theorem UnitStep.of_unit {u : UnitResult (GraphState σ α μ) α} (hu : UnitSound g left r.plane u)
    (hd : r.demand ≠ 0) : UnitStep g left r i (r.afterUnit (ε := ε) i u).1 (r.afterUnit i u).2 := by
  obtain ⟨hl,hw⟩ := hu
  cases u with
  | done d' more => exact .goOn d' _ hl hw
  | value d' v => exact .value d' v hl hw (Nat.pos_of_ne_zero hd)
  | wait d' => exact .wait d' hl hw.1 hw.2
  | fail d' status message => exact .fail d' status message none hl

variable (hinv : PlaneInv g r.plane) (ho : g.path.Ordered)
  (hrel : ∀ st ∈ g.path.stages, st.op.isRelation = false) (hc : r.cancelRequested = false)

include hinv ho hrel hc

theorem unitStep_top (hfr : r.plane.frames = f :: fs) :
    UnitStep g left r i (r.processUnit (plane g) i).1 (r.processUnit (plane g) i).2 := by
  have htop : (plane g).topFrame r.plane = some f.done := by simp [plane, hfr]
  have hpop : (plane g).popFrame r.plane = { r.plane with frames := fs } := by simp [plane, hfr]
  cases hd : f.done with
  | true =>
    simp only [RunImpl.processUnit, htop, hd, hpop]
    exact .goOn _ (some (i+1)) (popFrame_takes hinv hfr hd) (popFrame_works hinv hfr hd)
  | false =>
    simp only [RunImpl.processUnit, htop, hd]
    by_cases hz : r.demand = 0
    · rw [if_pos hz]
      refine .idle ⟨hz,?_⟩
      simp [RunImpl.runnable, hc, htop, hd, hz]
    · rw [if_neg hz]
      exact .of_unit (resumeTop_unit hinv hfr ho hrel hd _) hz

theorem unitStep_source (hS : g.sources.HandsOn left) (hf : r.plane.frames = [])
    (hsd : r.plane.sourceDone = false) :
    UnitStep g left r i (r.processUnit (plane g) i).1 (r.processUnit (plane g) i).2 := by
  have htop : (plane g).topFrame r.plane = none := by simp [plane, hf]
  have hdone : (plane g).sourceDone r.plane = false := hsd
  have hpoll : (plane g).poll r.plane = g.sources.poll r.plane.source := rfl
  have hmark : (plane g).markSourceDone r.plane = { r.plane with sourceDone := true } := rfl
  simp only [RunImpl.processUnit, htop, hdone, Bool.false_eq_true, if_false]
  by_cases hz : r.demand = 0
  · rw [if_pos hz, hpoll]
    cases hp : g.sources.poll r.plane.source with
    | opened =>
      refine .idle ⟨hz,?_⟩
      simp [RunImpl.runnable, hc, htop, hdone, hz]
    | done =>
      rw [hmark]
      refine .goOn _ (some (i+1)) (Takes.source hinv (fun _ => rfl) ?_ rfl rfl) ?_
      · simp [sourceLeft, hS.pollDone hp]
      · exact ⟨0,Nat.zero_le _,by simp,by simp [workAt, hsd]⟩
    | error m => exact absurd hp hS.pollError
  · rw [if_neg hz]
    exact .of_unit (processSourceStep_unit hinv hf hsd hS ho hrel _) hz

theorem unitStep_flush (hf : r.plane.frames = []) (hsd : r.plane.sourceDone = true) :
    UnitStep g left r i (r.processUnit (plane g) i).1 (r.processUnit (plane g) i).2 := by
  have htop : (plane g).topFrame r.plane = none := by simp [plane, hf]
  have hdone : (plane g).sourceDone r.plane = true := hsd
  have hnodes : (plane g).nodesDone r.plane = r.plane.terminalNodesDone g := rfl
  have hflush : (plane g).flushNode r.plane = r.plane.flushOneTerminalNode g := rfl
  simp only [RunImpl.processUnit, htop, hdone, hnodes]
  cases hn : r.plane.terminalNodesDone g with
  | true => exact .finish (rest_eq_nil hinv hf hsd hn) (succeeds_of_done hinv hf hsd hn hrel)
  | false =>
    by_cases hz : r.demand = 0
    · rw [if_pos hz]
      refine .idle ⟨hz,?_⟩
      simp [RunImpl.runnable, hc, htop, hnodes, hn, hz]
    · rw [if_neg hz]
      exact .of_unit (flushOneTerminalNode_unit hinv hf hsd ho hrel hn) hz

theorem unitStep_processUnit (hS : g.sources.HandsOn left) (i : Nat) :
    UnitStep g left r i (r.processUnit (plane g) i).1 (r.processUnit (plane g) i).2 := by
  cases hfr : r.plane.frames with
  | cons f fs => exact unitStep_top hinv ho hrel hc hfr
  | nil =>
    cases hsd : r.plane.sourceDone with
    | false => exact unitStep_source hinv ho hrel hc hS hfr hsd
    | true => exact unitStep_flush hinv ho hrel hc hfr hsd

end ProcessUnit

end GraphState

end Salts.CFlow
