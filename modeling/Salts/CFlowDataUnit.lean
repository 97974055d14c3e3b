import Salts.CFlowDataRest
import Salts.LexDescent

/-!
The units of `process_unit`: each takes at most one value out of those to come, and one that fails
meets a failure among what is still to happen.  A unit takes from one place and adds only behind it,
so it leaves less work: what the source still hands on, and per node what its continuations and its
slot hold.
-/

namespace Salts.CFlow

open LexDescent
open StageOp
open GraphRun (byId cutSlot initialSlot pending subscribe)

variable {σ α ρ μ ε : Type}

def Frame.work (f : Frame α μ) : Nat := if f.done then 1 else f.left.length + 2

def StageOp.work (op : StageOp α ρ) (s : Slot α) : Nat :=
  match op with
  | .sorted _ => if s.flushed then 0 else s.items.length + 1
  | .reduce _ _ => s.value.isSome.toNat
  | _ => 0

variable {stages : List (Stage α ρ)} {o : EvalOptions α}

namespace GraphState

def frameWork (frames : List (Frame α μ)) (j : Nat) : Nat :=
  ((frames.filter fun f => f.position == j).map Frame.work).sum

def workAt (g : GraphRun σ α ρ μ ε) (left : σ → List α) (d : GraphState σ α μ) : Nat → Nat
  | 0 => if d.sourceDone then 0 else (left d.source).length + 1
  | j + 1 => frameWork d.frames j + (g.path.stages[j]?.map fun st => st.op.work (d.slots j)).getD 0

def Works (g : GraphRun σ α ρ μ ε) (left : σ → List α) (d' d : GraphState σ α μ) : Prop :=
  Below g.path.stages.length (d'.workAt g left) (d.workAt g left)

structure Takes (g : GraphRun σ α ρ μ ε) (left : σ → List α) (d d' : GraphState σ α μ) (vs : List α) :
    Prop where
  inv : PlaneInv g d'
  rest : d.rest g left = vs ++ d'.rest g left
  succeeds : d.Succeeds g left → d'.Succeeds g left
  recedes : (∀ st ∈ g.path.stages, st.op.strict = true) → d'.Succeeds g left → d.Succeeds g left

/-- The law of a unit: what it returns is the next value to come, and it fails only when something
that is still to happen fails or the stack of continuations is too small. -/
def UnitLaw (g : GraphRun σ α ρ μ ε) (left : σ → List α) (d : GraphState σ α μ) :
    UnitResult (GraphState σ α μ) α → Prop
  | .done d' _ => Takes g left d d' []
  | .value d' v => Takes g left d d' [v]
  | .wait d' => Takes g left d d' []
  | .fail _ _ _ => flatMaps g.path.stages ≤ maxContinuations → ¬d.Succeeds g left

structure Start (g : GraphRun σ α ρ μ ε) (left : σ → List α) (d d₀ : GraphState σ α μ) (k : Nat)
    (v : α) : Prop where
  entry : Entry g d₀ k
  raw : d.rawAt g left k = v :: d₀.rawAt g left k
  same : SameFrom d d₀ k
  before : d.Before g left k → d₀.Before g left k
  recedes : (∀ st ∈ g.path.stages, st.op.strict = true) → d₀.Before g left k → d.Before g left k

variable {g : GraphRun σ α ρ μ ε} {left : σ → List α} {d d₀ d' : GraphState σ α μ} {k : Nat} {v : α}
  {r : GraphState σ α μ × PathEnd α} {cut : Bool}

theorem Start.unitLaw (hS : Start g left d d₀ k v)
    (ht : Travel g d₀ k (g.opsAt k) (g.path.stages.drop k) v r.1 r.2 cut) :
    UnitLaw g left d (unitResult r) := by
  have hlen := hS.entry.length
  have hrest : r.2.isFailed = false → d.rest g left = r.2.values ++ r.1.rest g left := by
    intro he
    rw [← ht.rest hS.entry he, rest_eq hlen, hS.raw, outFrom_congr hS.same]
  have hsucc : d.Succeeds g left → d₀.Before g left k ∧
      Succeeding g.options d₀ k (g.opsAt k) (g.path.stages.drop k) (v :: d₀.rawAt g left k) := by
    intro hs
    obtain ⟨hb,hin,hfrom⟩ := (succeeds_iff hlen).1 hs
    rw [hS.raw] at hin hfrom
    exact ⟨hS.before hb,hin,(succeedsFrom_congr hS.same).2 hfrom⟩
  have htakes : r.2.isFailed = false → Takes g left d r.1 r.2.values := by
    intro he
    refine ⟨ht.inv hS.entry,hrest he,fun hs => ?_,fun hcut hs => ?_⟩
    · exact ht.succeeds_rest hS.entry he (hsucc hs).1 (hsucc hs).2
    · obtain ⟨hb,hin,hfrom⟩ := ht.succeeds_back hS.entry he hcut hs
      rw [succeeds_iff hlen, hS.raw]
      exact ⟨hS.recedes hcut hb,hin,(succeedsFrom_congr hS.same).1 hfrom⟩
  obtain ⟨d',e⟩ := r
  cases e with
  | stopped => exact htakes rfl
  | emitted w => exact htakes rfl
  | failed status message =>
    exact fun hmax hs => ht.refused rfl (hS.entry.room hmax) _ (hsucc hs).2

theorem frameWork_append (l m : List (Frame α μ)) (j : Nat) :
    frameWork (l ++ m) j = frameWork l j + frameWork m j := by
  simp [frameWork]

variable {j i : Nat}

theorem frameWork_eq_zero {l : List (Frame α μ)} (h : ∀ f ∈ l, f.position ≠ j) :
    frameWork l j = 0 := by
  simp [frameWork, filter_position_eq_nil h]

theorem frameWork_cons (f : Frame α μ) (l : List (Frame α μ)) (j : Nat) :
    frameWork (f :: l) j = (if f.position = j then f.work else 0) + frameWork l j := by
  by_cases h : f.position = j <;> simp [frameWork, h]

theorem frameWork_stop_le (r : RelationOps α ρ μ) (l : List (Frame α μ)) (j : Nat) :
    frameWork (l.map (Frame.stop r)) j ≤ frameWork l j := by
  induction l with
  | nil => exact le_rfl
  | cons f l ih =>
    have hf : (Frame.stop r f).work ≤ f.work := by
      simp only [Frame.work, Frame.stop, if_true]
      split <;> omega
    have hp : (Frame.stop r f).position = f.position := rfl
    rw [List.map_cons, frameWork_cons, frameWork_cons, hp]
    split <;> omega

theorem work_cutSlot_le (op : StageOp α ρ) (j : Nat) (s : Slot α) :
    op.work (g.cutSlot j s) ≤ op.work s := by
  unfold cutSlot
  split
  · cases op <;> simp [work]
  · exact le_rfl

variable {ops : List (Inline α)} {e : PathEnd α}

theorem Travel.workAt_le (h : Travel g d k ops stages v d' e cut) (hi : i ≤ k) :
    d'.workAt g left i ≤ d.workAt g left i := by
  cases i with
  | zero =>
    simp only [workAt, h.sourceDone]
    cases cut with
    | false => simp [h.source rfl]
    | true => simp
  | succ j =>
    obtain ⟨new,hnew,hfr⟩ := h.frames
    have hz : frameWork new j = 0 := frameWork_eq_zero fun f hf => by
      have := Fresh.position_le hnew f hf
      omega
    have hframes : frameWork d'.frames j ≤ frameWork d.frames j := by
      rw [hfr, frameWork_append, hz, Nat.zero_add]
      split
      · exact frameWork_stop_le _ _ _
      · exact le_rfl
    simp only [workAt]
    cases hst : g.path.stages[j]? with
    | none => simpa using hframes
    | some st =>
      have hslot : st.op.work (d'.slots j) ≤ st.op.work (d.slots j) := by
        rw [h.slots j (by omega)]
        split
        · exact work_cutSlot_le _ _ _
        · exact le_rfl
      simp only [Option.map_some, Option.getD_some]
      omega

theorem Travel.works (h : Travel g d₀ k ops stages v d' e cut) (hk : k ≤ g.path.stages.length)
    (hbefore : ∀ i < k, d₀.workAt g left i ≤ d.workAt g left i)
    (hlt : d₀.workAt g left k < d.workAt g left k) : Works g left d' d :=
  ⟨k,hk,fun i hi => Nat.le_trans (h.workAt_le (Nat.le_of_lt hi)) (hbefore i hi),
    Nat.lt_of_le_of_lt (h.workAt_le le_rfl) hlt⟩

def UnitWorks (g : GraphRun σ α ρ μ ε) (left : σ → List α) (d : GraphState σ α μ) :
    UnitResult (GraphState σ α μ) α → Prop
  | .done d' _ => Works g left d' d
  | .value d' _ => Works g left d' d
  | .wait d' => d'.workAt g left = d.workAt g left ∧ ∃ n, (g.sources.resume d.source n).2 = .wait
  | .fail _ _ _ => True

def UnitSound (g : GraphRun σ α ρ μ ε) (left : σ → List α) (d : GraphState σ α μ)
    (r : UnitResult (GraphState σ α μ) α) : Prop := UnitLaw g left d r ∧ UnitWorks g left d r

theorem unitResult_works (h : Works g left r.1 d) : UnitWorks g left d (unitResult r) := by
  obtain ⟨d',e⟩ := r
  cases e <;> first | exact h | trivial

theorem Start.unit (hS : Start g left d d₀ k v)
    (ht : Travel g d₀ k (g.opsAt k) (g.path.stages.drop k) v r.1 r.2 cut)
    (hbefore : ∀ i < k, d₀.workAt g left i ≤ d.workAt g left i)
    (hlt : d₀.workAt g left k < d.workAt g left k) : UnitSound g left d (unitResult r) :=
  ⟨hS.unitLaw ht,unitResult_works (ht.works hS.entry.length hbefore hlt)⟩

theorem Takes.of_same (hinv : PlaneInv g d') (hs : d'.sourceLeft left = d.sourceLeft left)
    (h : SameFrom d d' 0) : Takes g left d d' [] := by
  have hiff : d'.Succeeds g left ↔ d.Succeeds g left := by
    simp [GraphState.Succeeds, Succeeding, hs, succeedsFrom_congr h]
  refine ⟨hinv,?_,hiff.2,fun _ => hiff.1⟩
  simp [GraphState.rest, hs, outFrom_congr h]

theorem Takes.source (hinv : PlaneInv g d) (hd : d.sourceDone = true → d'.sourceDone = true)
    (hs : d'.sourceLeft left = d.sourceLeft left) (hsl : d'.slots = d.slots)
    (hfr : d'.frames = d.frames) : Takes g left d d' [] := by
  refine .of_same ?_ hs ⟨fun j _ => by rw [hsl],fun j _ => .of_filter (by rw [hfr])⟩
  refine ⟨by rw [hfr]; exact hinv.stack,by rw [hfr]; exact hinv.machine,?_,
    by rw [hfr, hsl]; exact hinv.behind,by rw [hsl]; exact hinv.flushed⟩
  rw [hfr, hsl]
  intro j st hj hc
  obtain ⟨h1,h2,h3⟩ := hinv.closed j st hj hc
  exact ⟨hd h1,h2,h3⟩

section Source

variable (hinv : PlaneInv g d) (hf : d.frames = []) (hsd : d.sourceDone = false)

include hinv hf hsd

theorem source_start (hsl : d₀.slots = d.slots) (hfr : d₀.frames = [])
    (hleft : left d.source = v :: d₀.sourceLeft left) : Start g left d d₀ 0 v where
  entry := by
    have hclosed : ∀ j (st : Stage α ρ), g.path.stages[j]? = some st →
        st.op.closed (d.slots j) = false := by
      intro j st hj
      by_contra hne
      have := (hinv.closed j st hj (by simpa using hne)).1
      simp [hsd] at this
    refine ⟨⟨?_,?_,?_,?_,?_⟩,Nat.zero_le _,?_,?_,?_⟩
    · simp [hfr]
    · simp [hfr]
    · intro j st hj hc
      rw [hsl, hclosed j st hj] at hc
      cases hc
    · simp [hfr]
    · rw [hsl]
      exact hinv.flushed
    · simp [hfr]
    · intro j st _ hj
      rw [hsl]
      exact hclosed j st hj
    · omega
  raw := by
    simp only [rawAt]
    rw [← hleft]
    simp [sourceLeft, hsd]
  same := ⟨fun j _ => by rw [hsl],fun j _ => .of_filter (by rw [hf, hfr])⟩
  before := id
  recedes _ := id

theorem processSourceStep_unit (hS : g.sources.HandsOn left) (ho : g.path.Ordered)
    (hrel : ∀ st ∈ g.path.stages, st.op.isRelation = false) (demand : Nat) :
    UnitSound g left d (d.processSourceStep g demand) := by
  have hwalk : ∀ {d₀ : GraphState σ α μ} {v : α}, Start g left d d₀ 0 v →
      d₀.workAt g left 0 < d.workAt g left 0 →
      UnitSound g left d (unitResult (d₀.processFrom g 0 g.path.lead v)) := by
    intro d₀ v hst hlt
    obtain ⟨cut,ht⟩ := travel_from ho hrel g.path.lead v hst.entry.position hst.entry.opened
    exact hst.unit ht nofun hlt
  unfold processSourceStep
  dsimp only
  cases hstep : (g.sources.resume d.source demand).2 with
  | value w =>
    have hleft := hS.value hstep
    refine hwalk (source_start hinv hf hsd rfl hf ?_) ?_
    · simpa only [sourceLeft, hsd, Bool.false_eq_true, if_false] using hleft
    · simp [workAt, hsd, hleft]
  | valueAndDone w =>
    refine hwalk (source_start hinv hf hsd rfl hf (hS.valueAndDone hstep)) ?_
    simp [workAt, hsd]
  | wait =>
    refine ⟨Takes.source hinv id ?_ rfl rfl,?_,demand,hstep⟩
    · simp only [sourceLeft, hsd]
      exact hS.wait hstep
    · funext i
      cases i with
      | zero => simp [workAt, hS.wait hstep]
      | succ j => rfl
  | done =>
    refine ⟨Takes.source hinv (fun _ => rfl) ?_ rfl rfl,0,Nat.zero_le _,nofun,?_⟩
    · simp only [sourceLeft, hsd]
      exact (hS.done hstep).symm
    · simp [workAt, hsd]
  | error m => exact absurd hstep hS.noError

end Source

section Frames

variable {f f' : Frame α μ} {fs : List (Frame α μ)} {gen gen' : Generation α}

section

variable (hfr : d.frames = f :: fs) (hfs : ∀ x ∈ fs, x.position < f.position)

include hfr hfs

theorem waiting_cons (j : Nat) :
    d.waiting j = if f.position = j then f.left
      else (fs.filter fun x => x.position == j).flatMap Frame.left := by
  simp only [waiting, hfr]
  by_cases hj : f.position = j
  · have : fs.filter (fun x => x.position == j) = [] :=
      filter_position_eq_nil fun x hx => by have := hfs x hx; omega
    simp [hj, this]
  · simp [hj]

theorem waitingSucceeds_cons (j : Nat) :
    d.WaitingSucceeds j ↔ if f.position = j then f.Succeeds
      else ∀ x ∈ fs, x.position = j → x.Succeeds := by
  simp only [WaitingSucceeds, hfr, List.forall_mem_cons]
  by_cases hj : f.position = j
  · have : ∀ x ∈ fs, x.position = j → x.Succeeds := fun x hx hp => by have := hfs x hx; omega
    rw [if_pos hj]
    exact ⟨fun h => h.1 hj,fun h => ⟨fun _ => h,this⟩⟩
  · simp [hj]

theorem sameAt_top (hfr' : d'.frames = f' :: fs) (hp : f'.position = f.position)
    (hj : f.position ≠ j) : SameAt d d' j:= by
  have hfs' : ∀ x ∈ fs, x.position < f'.position := by rwa [hp]
  constructor
  · rw [waiting_cons hfr hfs, waiting_cons hfr' hfs', hp, if_neg hj, if_neg hj]
  · rw [waitingSucceeds_cons hfr hfs, waitingSucceeds_cons hfr' hfs', hp, if_neg hj, if_neg hj]

theorem sameAt_top_all (hfr' : d'.frames = f' :: fs) (hp : f'.position = f.position)
    (hl : f'.left = f.left) (hs : f'.Succeeds ↔ f.Succeeds) (j : Nat) : SameAt d d' j := by
  by_cases hj : f.position = j
  · have hfs' : ∀ x ∈ fs, x.position < f'.position := by rwa [hp]
    constructor
    · rw [waiting_cons hfr hfs, waiting_cons hfr' hfs', hp, if_pos hj, if_pos hj, hl]
    · rw [waitingSucceeds_cons hfr hfs, waitingSucceeds_cons hfr' hfs', hp, if_pos hj, if_pos hj, hs]
  · exact sameAt_top hfr hfs hfr' hp hj

end

variable (hinv : PlaneInv g d) (hfr : d.frames = f :: fs)

include hinv hfr

theorem top_positions : ∀ x ∈ fs, x.position < f.position := by
  have := hinv.stack
  rw [hfr, List.pairwise_cons] at this
  exact this.1

theorem PlaneInv.top (hd : f.done = false) (hp : f'.position = f.position)
    (hm : f'.machine = .generator gen') : PlaneInv g { d with frames := f' :: fs } where
  stack := by
    have := hinv.stack
    rw [hfr, List.pairwise_cons] at this
    rw [List.pairwise_cons, hp]
    exact this
  machine x hx := by
    have hall : ∀ x ∈ f :: fs, _ := hfr ▸ hinv.machine
    rcases List.mem_cons.1 hx with rfl | hx
    · exact ⟨⟨gen',hm⟩,hp ▸ (hall f (.head _ ..)).2⟩
    · exact hall x (.tail _ hx)
  closed j st hj hc := by
    obtain ⟨h1,h2,h3⟩ := hinv.closed j st hj hc
    rw [hfr] at h2
    refine ⟨h1,fun x hx => ?_,h3⟩
    rcases List.mem_cons.1 hx with rfl | hx
    · rcases h2 f (.head _ ..) with hdone | hlt
      · simp [hd] at hdone
      · exact .inr (hp ▸ hlt)
    · exact h2 x (.tail _ hx)
  behind x hx hdx i st hi hst := by
    rcases List.mem_cons.1 hx with rfl | hx
    · exact hinv.behind f (by simp [hfr]) hd i st (hp ▸ hi) hst
    · exact hinv.behind x (by simp [hfr, hx]) hdx i st hi hst
  flushed := hinv.flushed

theorem frame_start (hd : f.done = false) (hgen : f.machine = .generator gen) {vs : List α}
    (hvs : gen.values = v :: vs) (hp : f'.position = f.position) (hm : f'.machine = .generator gen')
    (hleft : f'.left = vs) (hend : f.Succeeds ↔ f'.Succeeds) :
    Start g left d { d with frames := f' :: fs } (f.position + 1) v := by
  have hfs := top_positions hinv hfr
  have hfs' : ∀ x ∈ fs, x.position < f'.position := by rwa [hp]
  obtain ⟨-,st,hst,hfl⟩ := hinv.machine f (by simp [hfr])
  obtain ⟨hlen,-⟩ := List.getElem?_eq_some_iff.1 hst
  set d₀ : GraphState σ α μ := { d with frames := f' :: fs }
  have hsame : SameBefore left d d₀ f.position :=
    ⟨rfl,fun _ _ => rfl,fun j hj => sameAt_top hfr hfs rfl hp (by omega)⟩
  have hbefore : d.Before g left (f.position+1) ↔ d₀.Before g left (f.position+1) := by
    simp only [Before, before_congr hsame, rawAt_congr hsame, waitingSucceeds_cons hfr hfs,
      waitingSucceeds_cons (d := d₀) rfl hfs', if_pos hp, hend]
    rfl
  refine ⟨⟨hinv.top hfr hd hp hm,hlen,fun x hx => ?_,fun j st' hj hst' => ?_,?_⟩,?_,
    ⟨fun _ _ => rfl,fun j hj => sameAt_top hfr hfs rfl hp (by omega)⟩,hbefore.1,
    fun _ => hbefore.2⟩
  · rcases List.mem_cons.1 hx with rfl | hx
    · omega
    · have := hfs x hx
      omega
  · -- an operator behind the continuation cannot have closed before it is done
    by_contra hne
    have h2 := (hinv.closed j st' hst' (by simpa using hne)).2.1 f (by simp [hfr])
    rcases h2 with hdone | hlt
    · simp [hd] at hdone
    · omega
  · intro i st' hi hst'
    rcases Nat.eq_or_lt_of_le (Nat.le_of_lt_succ hi) with rfl | hlt
    · rw [hst] at hst'
      cases hst'
      exact behind_of_flatMap hfl
    · exact hinv.behind f (by simp [hfr]) hd i st' hlt hst'
  · have hleft₀ : f.left = v :: vs := by simp [Frame.left, hd, hgen, hvs]
    simp only [rawAt, rawAt_congr hsame, waiting_cons hfr hfs, waiting_cons (d := d₀) rfl hfs', hp,
      hleft, hleft₀]
    rfl

theorem resumeTop_unit (ho : g.path.Ordered) (hrel : ∀ st ∈ g.path.stages, st.op.isRelation = false)
    (hd : f.done = false) (demand : Nat) : UnitSound g left d (d.resumeTop g demand) := by
  have hfs := top_positions hinv hfr
  obtain ⟨⟨gen,hgen⟩,st,hst,-⟩ := hinv.machine f (by simp [hfr])
  obtain ⟨hlen,-⟩ := List.getElem?_eq_some_iff.1 hst
  -- a top continuation with less work, before and at its node
  have hbefore : ∀ {f' : Frame α μ}, f'.position = f.position → ∀ i < f.position+1,
      workAt g left { d with frames := f' :: fs } i ≤ d.workAt g left i := by
    intro f' hp i hi
    cases i with
    | zero => exact le_rfl
    | succ j =>
      simp only [workAt, hfr, frameWork_cons, hp, if_neg (show f.position ≠ j by omega)]
      exact le_rfl
  have hat : ∀ {f' : Frame α μ}, f'.position = f.position → f'.work < f.work →
      workAt g left { d with frames := f' :: fs } (f.position + 1) <
        d.workAt g left (f.position+1) := by
    intro f' hp hlt
    simp only [workAt, hfr, frameWork_cons, hp, if_true]
    omega
  have hwalk : ∀ {f' : Frame α μ} {v : α}, f'.position = f.position → f'.work < f.work →
      Start g left d { d with frames := f' :: fs } (f.position + 1) v →
      UnitSound g left d (unitResult (GraphState.processFrom g { d with frames := f' :: fs }
        (f.position+1) (g.after f.position) v)) := by
    intro f' v hp hlt hs
    obtain ⟨cut,ht⟩ := travel_from ho hrel (g.after f.position) v hs.entry.position hs.entry.opened
    exact hs.unit ht (hbefore hp) (hat hp hlt)
  simp only [resumeTop, hfr, hgen, Machine.resume, Generation.resume]
  cases hvs : gen.values with
  | nil =>
    by_cases he : gen.ending = .error
    · -- the generator fails
      simp only [he]
      refine ⟨fun _ hs => ?_,trivial⟩
      have hw := ((succeeds_iff hlen).1 hs).1.2.2.2
      rw [waitingSucceeds_cons hfr hfs, if_pos rfl] at hw
      have := hw hd
      simp [hgen, he] at this
    · simp only [he]
      refine ⟨Takes.of_same (hinv.top hfr hd rfl rfl) rfl ⟨fun _ _ => rfl,fun j _ => ?_⟩,
        f.position+1,hlen,hbefore rfl,hat rfl ?_⟩
      · refine sameAt_top_all hfr hfs (show _ =
          { f with machine := .generator gen, done := true } :: fs from rfl) rfl ?_ ?_ j
        · simp [Frame.left, hgen, hvs]
        · simp [Frame.Succeeds, hgen, he]
      · simp only [Frame.work, hd, if_true, Bool.false_eq_true, if_false]
        omega
  | cons w vs =>
    by_cases hlast : vs.isEmpty = true ∧ gen.ending = .last
    · simp only [hlast]
      have hnil := List.isEmpty_iff.1 hlast.1
      refine hwalk rfl ?_ (frame_start hinv hfr hd hgen hvs rfl rfl ?_ ?_)
      · simp only [Frame.work, hd, if_true, Bool.false_eq_true, if_false]
        omega
      · simp [Frame.left, hnil]
      · simp [Frame.Succeeds, hgen, hlast.2]
    · simp only [hlast]
      refine hwalk rfl ?_ (frame_start hinv hfr hd hgen hvs rfl rfl ?_ ?_)
      · simp [Frame.work, Frame.left, hd, hgen, hvs]
      · simp [Frame.left, hd]
      · simp [Frame.Succeeds, hgen]

theorem popFrame_takes (hd : f.done = true) : Takes g left d { d with frames := fs } [] := by
  have hfs := top_positions hinv hfr
  have hmem : ∀ {x}, x ∈ fs → x ∈ d.frames := fun hx => by simp [hfr, hx]
  refine .of_same ⟨?_,fun x hx => hinv.machine x (hmem hx),fun j st hj hc => ?_,
    fun x hx => hinv.behind x (hmem hx),hinv.flushed⟩ rfl ⟨fun _ _ => rfl,fun j _ => ⟨?_,?_⟩⟩
  · have := hinv.stack
    rw [hfr, List.pairwise_cons] at this
    exact this.2
  · obtain ⟨h1,h2,h3⟩ := hinv.closed j st hj hc
    exact ⟨h1,fun x hx => h2 x (hmem hx),h3⟩
  · rw [waiting_cons hfr hfs]
    split
    · next hj =>
        rw [waiting_eq_nil fun x hx => by have := hfs x hx; omega]
        simp [Frame.left, hd]
    · rfl
  · rw [waitingSucceeds_cons hfr hfs]
    split
    · next hj =>
        have hne : ∀ x ∈ fs, x.position ≠ j := fun x hx => by have := hfs x hx; omega
        exact iff_of_true (waitingSucceeds_of_ne hne) fun h => by simp [hd] at h
    · rfl

end Frames

section Flush

variable {j : Nat} {st : Stage α ρ} {s₀ : Slot α}

@[simp] theorem setSlot_slots_self (s : Slot α) : (d.setSlot j s).slots j = s := by
  simp [setSlot]

theorem setSlot_slots_of_ne (s : Slot α) (h : i ≠ j) : (d.setSlot j s).slots i = d.slots i := by
  simp [setSlot, h]

@[simp] theorem setSlot_setSlot (s s' : Slot α) : (d.setSlot j s).setSlot j s' = d.setSlot j s' := by
  simp [setSlot]

theorem setSlot_sameFrom (s : Slot α) (hj : j < k) : SameFrom d (d.setSlot j s) k :=
  ⟨fun i hi => setSlot_slots_of_ne s (by omega),fun _ _ => .of_filter rfl⟩

theorem Travel.modify (h : Travel g d k ops stages v d' e cut) (hj : j < k) (u : Slot α → Slot α)
    (hu : ∀ s, u (g.cutSlot j s) = g.cutSlot j (u s)) :
    Travel g (d.setSlot j (u (d.slots j))) k ops stages v (d'.setSlot j (u (d'.slots j))) e cut where
  out he xs := by
    rw [outFrom_congr (setSlot_sameFrom _ hj), outFrom_congr (setSlot_sameFrom _ hj)]
    exact h.out he xs
  succeeds he xs := by
    simp only [Succeeding, succeedsFrom_congr (setSlot_sameFrom _ hj)]
    exact h.succeeds he xs
  refused he hroom xs := by
    simp only [Succeeding, succeedsFrom_congr (setSlot_sameFrom _ hj)]
    exact h.refused he hroom xs
  marks i hi := by
    rw [setSlot_slots_of_ne _ (by omega), setSlot_slots_of_ne _ (by omega)]
    exact h.marks i hi
  sourceDone := h.sourceDone
  source := h.source
  slots i hi := by
    by_cases hij : i = j
    · subst hij
      rw [setSlot_slots_self, setSlot_slots_self, h.slots i hi]
      split
      · exact hu _
      · rfl
    · rw [setSlot_slots_of_ne _ hij, setSlot_slots_of_ne _ hij]
      exact h.slots i hi
  frames := h.frames
  dry hc xs := by
    simp only [outFrom_congr (setSlot_sameFrom _ hj), succeedsFrom_congr (setSlot_sameFrom _ hj)]
    exact h.dry hc xs
  filled := h.filled

/-- The source is done, no continuation is left, and the operator at `j` is the first that has not
handed on its result. -/
structure NextFlush (g : GraphRun σ α ρ μ ε) (d : GraphState σ α μ) (j : Nat) (st : Stage α ρ) :
    Prop where
  inv : PlaneInv g d
  frames : d.frames = []
  sourceDone : d.sourceDone = true
  stage : g.path.stages[j]? = some st
  before : ∀ i st', i < j → g.path.stages[i]? = some st' → st'.op.spent (d.slots i) = true
  pending : st.op.spent (d.slots j) = false

namespace NextFlush

variable (h : NextFlush g d j st)

include h

theorem opened (s : Slot α) : OpenFrom g (d.setSlot j s) (j + 1) := by
  intro i st' hi hst'
  rw [setSlot_slots_of_ne s (by omega)]
  by_contra hne
  have := (h.inv.closed i st' hst' (by simpa using hne)).2.2 j st hi h.stage
  rw [h.pending] at this
  cases this

theorem not_mem (s : Slot α) {P : Frame α μ → Prop} : ∀ f ∈ (d.setSlot j s).frames, P f := by
  intro f hm
  simp [setSlot, h.frames] at hm

theorem planeInv (hr : ∀ fn seed, st.op = .reduce fn seed → s₀.value = none) :
    PlaneInv g (d.setSlot j s₀) where
  stack := h.inv.stack
  machine := h.inv.machine
  closed i st' hst' hc := by
    refine ⟨h.sourceDone,h.not_mem s₀,fun i' st'' hi' hst'' => ?_⟩
    rcases Nat.lt_or_ge j i with hgt | hle
    · rw [h.opened s₀ i st' hgt hst'] at hc
      cases hc
    · rw [setSlot_slots_of_ne s₀ (by omega)]
      exact h.before i' st'' (by omega) hst''
  behind := h.not_mem s₀
  flushed i fn seed st' hst' hop hr' := by
    by_cases hij : i = j
    · subst hij
      rw [h.stage] at hst'
      cases hst'
      rw [setSlot_slots_self]
      exact hr fn seed hop
    · rw [setSlot_slots_of_ne s₀ hij] at hr' ⊢
      exact h.inv.flushed i fn seed st' hst' hop hr'

theorem rawAt_eq_nil (s : Slot α) : (d.setSlot j s).rawAt g left j = [] := by
  refine DrainedTo.rawAt ⟨by simp [sourceLeft, setSlot, h.sourceDone],h.not_mem s,?_⟩
  intro i st' hi hst'
  rw [setSlot_slots_of_ne s (by omega)]
  exact h.before i st' hi hst'

theorem rawAt_succ (left : σ → List α) (s : Slot α) :
    (d.setSlot j s).rawAt g left (j + 1) = stageOut g.options st.op s [] := by
  simp [rawAt, waiting_eq_nil (h.not_mem s), h.rawAt_eq_nil s, h.stage]

theorem before_setSlot (s : Slot α) (hs : StageSucceeds g.options st.op s []) :
    (d.setSlot j s).Before g left (j + 1) ↔ d.Before g left j := by
  have hsame : SameBefore left d (d.setSlot j s) j :=
    ⟨rfl,fun i hi => setSlot_slots_of_ne s (by omega),fun _ _ => .of_filter rfl⟩
  refine ⟨fun hb => (before_congr hsame).1 hb.1,fun hb => ⟨(before_congr hsame).2 hb,?_,
    fun st' hst' => ?_,waitingSucceeds_of_ne (h.not_mem s)⟩⟩
  · rw [h.rawAt_eq_nil s]
    exact inlineSucceeds_nil
  · rw [h.stage] at hst'
    cases hst'
    rw [h.rawAt_eq_nil s, setSlot_slots_self]
    exact hs

theorem before_strict (hstrict : ∀ st ∈ g.path.stages, st.op.strict = true)
    (hb : d.Before g left j) : d.Before g left (j + 1) := by
  have hs : StageSucceeds g.options st.op (d.slots j) [] := by
    have hop := hstrict st (List.mem_of_getElem? h.stage)
    have hpend := h.pending
    cases hst : st.op <;>
      simp [hst, strict, spent, StageSucceeds, ReduceSucceeds] at hop hpend ⊢
  have := (h.before_setSlot (d.slots j) hs).2 hb
  rwa [setSlot_self] at this

theorem start (s₀ : Slot α) (hb : st.op.behind s₀ = true)
    (hr : ∀ fn seed, st.op = .reduce fn seed → s₀.value = none)
    (hs : StageSucceeds g.options st.op s₀ [])
    (hout : stageOut g.options st.op (d.slots j) [] = v :: stageOut g.options st.op s₀ []) :
    Start g left d (d.setSlot j s₀) (j + 1) v := by
  have hraw := h.rawAt_succ left (d.slots j)
  rw [setSlot_self] at hraw
  obtain ⟨hlen,-⟩ := List.getElem?_eq_some_iff.1 h.stage
  refine ⟨⟨h.planeInv hr,hlen,h.not_mem s₀,h.opened s₀,fun i st' hi hst' => ?_⟩,?_,
    setSlot_sameFrom s₀ (Nat.lt_succ_self j),fun hb => (h.before_setSlot s₀ hs).2 hb.1,
    fun hstrict hb => h.before_strict hstrict ((h.before_setSlot s₀ hs).1 hb)⟩
  · rcases Nat.eq_or_lt_of_le (Nat.le_of_lt_succ hi) with rfl | hlt
    · rw [h.stage] at hst'
      cases hst'
      rw [setSlot_slots_self]
      exact hb
    · rw [setSlot_slots_of_ne s₀ (by omega)]
      exact behind_of_spent (h.before i st' hlt hst')
  · rw [hraw, hout, h.rawAt_succ left s₀]

theorem takes_nothing (hr : ∀ fn seed, st.op = .reduce fn seed → s₀.value = none)
    (hs : StageSucceeds g.options st.op s₀ [])
    (hout : stageOut g.options st.op (d.slots j) [] = stageOut g.options st.op s₀ []) :
    Takes g left d (d.setSlot j s₀) [] := by
  have hraw := h.rawAt_succ left (d.slots j)
  rw [setSlot_self] at hraw
  obtain ⟨hlen,-⟩ := List.getElem?_eq_some_iff.1 h.stage
  have hsame : SameFrom d (d.setSlot j s₀) (j+1) := setSlot_sameFrom s₀ (Nat.lt_succ_self j)
  refine ⟨h.planeInv hr,?_,fun hd => ?_,fun hstrict hd => ?_⟩
  · rw [rest_eq hlen, rest_eq hlen, hraw, hout, h.rawAt_succ left s₀, outFrom_congr hsame,
      List.nil_append]
  · obtain ⟨hb,hi,hfrom⟩ := (succeeds_iff hlen).1 hd
    rw [hraw, hout] at hi hfrom
    rw [succeeds_iff hlen, h.rawAt_succ left s₀]
    exact ⟨(h.before_setSlot s₀ hs).2 hb.1,hi,(succeedsFrom_congr hsame).2 hfrom⟩
  · rw [succeeds_iff hlen, h.rawAt_succ left s₀] at hd
    obtain ⟨hb,hi,hfrom⟩ := hd
    rw [succeeds_iff hlen, hraw, hout]
    exact ⟨h.before_strict hstrict ((h.before_setSlot s₀ hs).1 hb),hi,
      (succeedsFrom_congr hsame).1 hfrom⟩

theorem works (left : σ → List α) (s : Slot α) (hlt : st.op.work s < st.op.work (d.slots j)) :
    (∀ i < j + 1, (d.setSlot j s).workAt g left i ≤ d.workAt g left i) ∧
      (d.setSlot j s).workAt g left (j + 1) < d.workAt g left (j + 1) := by
  refine ⟨fun i hi => ?_,?_⟩
  · cases i with
    | zero => exact le_rfl
    | succ i =>
      simp only [workAt, setSlot_slots_of_ne s (show i ≠ j by omega)]
      exact le_rfl
  · have hfr : (d.setSlot j s).frames = d.frames := rfl
    simp only [workAt, hfr, setSlot_slots_self, h.stage, Option.map_some, Option.getD_some]
    omega

variable (ho : g.path.Ordered) (hrel : ∀ st ∈ g.path.stages, st.op.isRelation = false)

include ho hrel

/-- The way of a value that a flush starts, and the mark it leaves on its operator. -/
theorem travel (v : α) (s : Slot α) (u : Slot α → Slot α)
    (hu : ∀ s, u (g.cutSlot j s) = g.cutSlot j (u s)) :
    ∃ cut, Travel g (d.setSlot j (u s)) (j + 1) (g.opsAt (j + 1)) (g.path.stages.drop (j + 1)) v
      (((d.setSlot j s).processFrom g (j + 1) (g.after j) v).1.setSlot j
        (u (((d.setSlot j s).processFrom g (j + 1) (g.after j) v).1.slots j)))
      ((d.setSlot j s).processFrom g (j + 1) (g.after j) v).2 cut := by
  obtain ⟨cut,ht⟩ := travel_from ho hrel (g.after j) v (h.not_mem s) (h.opened s)
  have := ht.modify (Nat.lt_succ_self j) u hu
  rw [setSlot_slots_self, setSlot_setSlot] at this
  exact ⟨cut,this⟩

theorem flushReduceValue_unit {fn : Callable (α × α) α} {seed : Option α}
    (hop : st.op = .reduce fn seed) (hv : (d.slots j).value = some v) :
    UnitSound g left d (d.flushReduceValue g j v) := by
  obtain ⟨cut,ht⟩ := h.travel ho hrel v { d.slots j with reduceFlushed := true }
    (fun s => { s with value := none }) (fun s => by unfold cutSlot; split <;> rfl)
  obtain ⟨h1,h2⟩ := h.works left { d.slots j with reduceFlushed := true, value := none }
    (by simp [hop, work, hv])
  refine (h.start { d.slots j with reduceFlushed := true, value := none } ?_ ?_ ?_ ?_).unit ht h1 h2
  · simp [hop, behind]
  · intro _ _ _
    rfl
  · simp [hop, StageSucceeds, ReduceSucceeds]
  · simp [hop, stageOut, hv, reduceFrom]

theorem flushSortedValue_unit {maxElements : Nat} (hop : st.op = .sorted maxElements) :
    UnitSound g left d (d.flushSortedValue g j) := by
  obtain ⟨hlen,-⟩ := List.getElem?_eq_some_iff.1 h.stage
  have hfl : (d.slots j).flushed = false := by simpa [hop, spent] using h.pending
  have hwork : st.op.work (d.slots j) = (d.slots j).items.length+1 := by
    simp [hop, work, hfl]
  have hout : stageOut g.options st.op (d.slots j) [] =
      if (d.slots j).started then (d.slots j).items else g.options.sort (d.slots j).items := by
    simp [hop, stageOut, hfl]
  have hitems : (if (d.slots j).started then (d.slots j).items
      else g.options.sort (d.slots j).items).length = (d.slots j).items.length := by
    split
    · rfl
    · exact List.length_insertionSort _ _
  have hnoreduce : ∀ {s : Slot α} fn seed, st.op = .reduce fn seed → s.value = none := by
    intro s fn seed he
    rw [hop] at he
    cases he
  unfold flushSortedValue
  dsimp only
  generalize (if (d.slots j).started then (d.slots j).items
    else g.options.sort (d.slots j).items) = items at hout hitems
  cases items with
  | nil =>
    obtain ⟨h1,h2⟩ := h.works left
      { d.slots j with items := [], started := true, flushed := true }
      (by rw [hwork]; simp [hop, work])
    refine ⟨h.takes_nothing hnoreduce ?_ ?_,j+1,hlen,h1,h2⟩
    · simp [hop, StageSucceeds]
    · rw [hout]
      simp [hop, stageOut]
  | cons v rest =>
    dsimp only
    rw [List.length_cons] at hitems
    cases hre : rest.isEmpty with
    | true =>
      -- the last value marks the operator flushed
      have hnil := List.isEmpty_iff.1 hre
      obtain ⟨cut,ht⟩ := h.travel ho hrel v { d.slots j with items := rest, started := true }
        (fun s => { s with flushed := true }) (fun s => by unfold cutSlot; split <;> rfl)
      obtain ⟨h1,h2⟩ := h.works left
        { d.slots j with items := rest, started := true, flushed := true }
        (by rw [hwork]; simp [hop, work])
      refine (h.start _ ?_ hnoreduce ?_ ?_).unit ht h1 h2
      · simp [hop, behind]
      · simp [hop, StageSucceeds]
      · rw [hout, hnil]
        simp [hop, stageOut]
    | false =>
      obtain ⟨cut,ht⟩ := h.travel ho hrel v { d.slots j with items := rest, started := true }
        id fun _ => rfl
      simp only [id, setSlot_self] at ht
      obtain ⟨h1,h2⟩ := h.works left { d.slots j with items := rest, started := true }
        (by rw [hwork]; simp [hop, work, hfl]; omega)
      refine (h.start _ ?_ hnoreduce ?_ ?_).unit ht h1 h2
      · simp [hop, behind]
      · simp [hop, StageSucceeds]
      · rw [hout]
        simp [hop, stageOut, hfl]

end NextFlush

section

variable (hinv : PlaneInv g d)

include hinv

theorem pending_eq_not_spent (hj : g.path.stages[j]? = some st) :
    pending st.op (d.slots j) = !st.op.spent (d.slots j) := by
  cases hop : st.op with
  | reduce fn seed =>
    have := hinv.flushed j fn seed st hj hop
    cases hr : (d.slots j).reduceFlushed <;> cases hv : (d.slots j).value <;>
      simp_all [pending, spent]
  | _ => simp [pending, spent]

theorem terminalNodesDone_iff :
    d.terminalNodesDone g = true ↔
      ∀ j (st : Stage α ρ), g.path.stages[j]? = some st → st.op.spent (d.slots j) = true := by
  simp only [terminalNodesDone, List.all_eq_true, Prod.forall, List.mk_mem_zipIdx_iff_getElem?]
  constructor
  · intro h j st hj
    simpa [pending_eq_not_spent hinv hj] using h st j hj
  · intro h st j hj
    simp [pending_eq_not_spent hinv hj, h j st hj]

theorem terminalPredecessorsDone_iff (ho : g.path.Ordered) (hj : g.path.stages[j]? = some st) :
    d.terminalPredecessorsDone g st.id = true ↔
      ∀ i st', i < j → g.path.stages[i]? = some st' → st'.op.spent (d.slots i) = true := by
  simp only [terminalPredecessorsDone, List.all_eq_true, Prod.forall, List.mk_mem_zipIdx_iff_getElem?]
  constructor
  · intro h i st' hi hst'
    simpa [pending_eq_not_spent hinv hst', id_lt_iff ho hj hst', hi] using h st' i hst'
  · intro h st' i hst'
    by_cases hi : i < j
    · simp [pending_eq_not_spent hinv hst', h i st' hi hst']
    · simp [id_lt_iff ho hj hst', hi]

theorem exists_next (ho : g.path.Ordered) (hn : d.terminalNodesDone g = false) :
    ∃ j st, g.path.stages[j]? = some st ∧
      (d.terminalPredecessorsDone g st.id && pending st.op (d.slots j)) = true := by
  classical
  have hex : ∃ j, ∃ st : Stage α ρ, g.path.stages[j]? = some st ∧
      st.op.spent (d.slots j) = false := by
    by_contra hne
    have : d.terminalNodesDone g = true := (terminalNodesDone_iff hinv).2 fun j st hj => by
      by_contra hsp
      exact hne ⟨j,st,hj,by simpa using hsp⟩
    rw [hn] at this
    cases this
  -- the first of them has its predecessors done
  obtain ⟨st,hst,hsp⟩ := Nat.find_spec hex
  refine ⟨Nat.find hex,st,hst,?_⟩
  rw [Bool.and_eq_true, terminalPredecessorsDone_iff hinv ho hst]
  refine ⟨fun i st' hi hst' => ?_,by simp [pending_eq_not_spent hinv hst, hsp]⟩
  by_contra hne
  exact Nat.find_min hex hi ⟨st',hst',by simpa using hne⟩

theorem flushOneTerminalNode_unit (hf : d.frames = []) (hsd : d.sourceDone = true)
    (ho : g.path.Ordered) (hrel : ∀ st ∈ g.path.stages, st.op.isRelation = false)
    (hn : d.terminalNodesDone g = false) : UnitSound g left d (d.flushOneTerminalNode g) := by
  unfold flushOneTerminalNode
  dsimp only
  split
  · next hnone =>
      obtain ⟨j,st,hj,hnext⟩ := exists_next hinv ho hn
      obtain ⟨hlt,-⟩ := List.getElem?_eq_some_iff.1 hj
      have hmem : j ∈ g.byId := by
        simp only [byId, List.mem_insertionSort, List.mem_range]
        exact hlt
      have := List.find?_eq_none.1 hnone j hmem
      simp [hj, hnext] at this
  · next k hfind =>
      have hk := List.find?_some hfind
      cases hst : g.path.stages[k]? with
      | none => simp [hst] at hk
      | some st =>
        simp only [hst, Bool.and_eq_true] at hk
        have hpend : st.op.spent (d.slots k) = false := by
          simpa [pending_eq_not_spent hinv hst] using hk.2
        have hn : NextFlush g d k st :=
          ⟨hinv,hf,hsd,hst,(terminalPredecessorsDone_iff hinv ho hst).1 hk.1,hpend⟩
        cases hop : st.op with
        | reduce fn seed =>
          cases hv : (d.slots k).value with
          | none => simp [hop, spent, hv] at hpend
          | some v =>
            simp only [Option.map_some, hop]
            exact hn.flushReduceValue_unit ho hrel hop hv
        | sorted m =>
          simp only [Option.map_some, hop]
          exact hn.flushSortedValue_unit ho hrel hop
        | _ => simp [hop, spent] at hpend

end

end Flush

theorem rest_eq_nil (hinv : PlaneInv g d) (hf : d.frames = []) (hsd : d.sourceDone = true)
    (hn : d.terminalNodesDone g = true) : d.rest g left = [] := by
  have hraw : d.rawAt g left g.path.stages.length = [] := by
    refine DrainedTo.rawAt ⟨by simp [sourceLeft, hsd],by simp [hf],fun i st _ hst => ?_⟩
    exact (terminalNodesDone_iff hinv).1 hn i st hst
  rw [rest_eq (Nat.le_refl _), hraw, List.drop_length]
  rfl

theorem succeedsFrom_nil (hf : d.frames = [])
    (hs : ∀ j (st : Stage α ρ), stages[j]? = some st → st.op.spent (d.slots (k + j)) = true)
    (hrel : ∀ st ∈ stages, st.op.isRelation = false) (hstrict : ∀ st ∈ stages, st.op.strict = true) :
    SucceedsFrom o d k stages [] := by
  induction stages generalizing k with
  | nil => trivial
  | cons st stages ih =>
    have hspent : st.op.spent (d.slots k) = true := hs 0 st rfl
    have hop : StageSucceeds o st.op (d.slots k) [] := by
      have h1 := hrel st (.head _ ..)
      have h2 := hstrict st (.head _ ..)
      cases hst : st.op <;>
        simp [hst, isRelation, strict, StageSucceeds, ReduceSucceeds] at h1 h2 ⊢
    have hrest : SucceedsFrom o d (k+1) stages [] := by
      refine ih (fun j st' hj => ?_) (fun x hx => hrel x (.tail _ hx))
        fun x hx => hstrict x (.tail _ hx)
      rw [Nat.add_right_comm]
      exact hs (j+1) st' hj
    simp only [SucceedsFrom, waiting_eq_nil (d := d) (by simp [hf]), stageOut_spent_nil hspent]
    exact ⟨hop,waitingSucceeds_of_ne (by simp [hf]),inlineSucceeds_nil,hrest⟩

theorem succeeds_of_done (hinv : PlaneInv g d) (hf : d.frames = []) (hsd : d.sourceDone = true)
    (hn : d.terminalNodesDone g = true) (hrel : ∀ st ∈ g.path.stages, st.op.isRelation = false)
    (hstrict : ∀ st ∈ g.path.stages, st.op.strict = true) : d.Succeeds g left := by
  have hsource : d.sourceLeft left = [] := by simp [sourceLeft, hsd]
  refine ⟨by rw [hsource]; exact inlineSucceeds_nil,?_⟩
  rw [hsource]
  refine succeedsFrom_nil hf (fun j st hj => ?_) hrel hstrict
  rw [Nat.zero_add]
  exact (terminalNodesDone_iff hinv).1 hn j st hj

section Subscribe

variable {xs : List α}

section

variable (hf : d.frames = [])
  (hs : ∀ j st, stages[j]? = some st → d.slots (k + j) = initialSlot st.op)

include hf hs

theorem outFrom_initial : outFrom o d k stages xs = denoteStages o stages xs := by
  induction stages generalizing k xs with
  | nil => rfl
  | cons st stages ih =>
    have h0 : d.slots k = initialSlot st.op := hs 0 st rfl
    simp only [outFrom, waiting_eq_nil (d := d) (by simp [hf]), h0, stageOut_initial]
    exact ih fun j st' hj => by
      rw [Nat.add_right_comm]
      exact hs (j+1) st' hj

theorem succeedsFrom_initial : SucceedsFrom o d k stages xs ↔ SucceedsStages o stages xs := by
  induction stages generalizing k xs with
  | nil => exact Iff.rfl
  | cons st stages ih =>
    have h0 : d.slots k = initialSlot st.op := hs 0 st rfl
    have hw : d.WaitingSucceeds k := waitingSucceeds_of_ne (by simp [hf])
    have ih' : ∀ xs, SucceedsFrom o d (k+1) stages xs ↔ SucceedsStages o stages xs := fun xs =>
      ih fun j st' hj => by
        rw [Nat.add_right_comm]
        exact hs (j+1) st' hj
    simp [SucceedsFrom, SucceedsStages, waiting_eq_nil (d := d) (by simp [hf]), h0, stageOut_initial, stageSucceeds_initial, hw, ih']

end

theorem subscribe_slots (s : σ) {st : Stage α ρ} (hj : g.path.stages[j]? = some st) :
    (g.subscribe s).slots j = initialSlot st.op := by
  simp [subscribe, hj]

theorem subscribe_inv (s : σ) : PlaneInv g (g.subscribe s) where
  stack := List.Pairwise.nil
  machine := nofun
  closed j st hj hc := by
    rw [subscribe_slots s hj] at hc
    cases hop : st.op <;> simp [hop, closed, initialSlot] at hc
  behind := nofun
  flushed j fn seed st hj hop hr := by
    rw [subscribe_slots s hj, hop] at hr
    cases hr

end Subscribe

end GraphState

/-- The values of its source a subscription reads: none when a TAKE of nothing is on the path. -/
def Path.read (p : Path α ρ) (xs : List α) : List α :=
  if p.stages.any fun st => st.op.takesNothing then [] else xs

theorem denoteStages_takesNothing (h : stages.any (fun st => st.op.takesNothing) = true)
    (xs ys : List α) : denoteStages o stages xs = denoteStages o stages ys := by
  induction stages generalizing xs ys with
  | nil => cases h
  | cons st stages ih =>
    rw [List.any_cons, Bool.or_eq_true] at h
    rcases h with h | h
    · have hop : st.op = .take 0 := by
        cases hop : st.op <;> simp [hop, takesNothing] at h
        case take limit => cases limit <;> simp at h ⊢
      simp [denoteStages, hop, denote]
    · exact ih h _ _

theorem Path.denote_read (o : EvalOptions α) (p : Path α ρ) (xs : List α) :
    p.denote o (p.read xs) = p.denote o xs := by
  unfold Path.read
  split
  · exact denoteStages_takesNothing ‹_› _ _
  · rfl

namespace GraphState

variable {g : GraphRun σ α ρ μ ε} {left : σ → List α}

theorem sourceLeft_subscribe (s : σ) : (g.subscribe s).sourceLeft left = g.path.read (left s) := by
  simp only [sourceLeft, subscribe, Path.read]
  split <;> simp_all

/-- The values to come out of a new subscription are the meaning of its path. -/
theorem rest_subscribe (s : σ) :
    (g.subscribe s).rest g left = g.path.denote g.options (left s) := by
  rw [← Path.denote_read, rest, sourceLeft_subscribe]
  exact outFrom_initial rfl fun j st hj => by simpa using subscribe_slots s hj

theorem succeeds_subscribe (s : σ) :
    (g.subscribe s).Succeeds g left ↔ g.path.Succeeds g.options (g.path.read (left s)) := by
  have hslots : ∀ j st, g.path.stages[j]? = some st →
      (g.subscribe s).slots (0+j) = initialSlot st.op := fun j st hj => by
    simpa using subscribe_slots s hj
  simp [Succeeds, Succeeding, sourceLeft_subscribe, Path.Succeeds, succeedsFrom_initial rfl hslots]

end GraphState

end Salts.CFlow
