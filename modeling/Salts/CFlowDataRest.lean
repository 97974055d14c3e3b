import Salts.CFlowDataStep

/-!
The values that are still to come out of a state of the data plane, seen from any place of the path,
and the invariant under which a unit of work takes them out one by one.
-/

namespace Salts.CFlow

open StageOp
open GraphRun

variable {σ α ρ μ ε : Type}

/-- A source that hands on the values of `left` and is done then, however it waits in between. -/
structure SourceOps.HandsOn (S : SourceOps σ α ε) (left : σ → List α) : Prop where
  value : ∀ {s n v}, (S.resume s n).2 = .value v → left s = v :: left (S.resume s n).1
  valueAndDone : ∀ {s n v}, (S.resume s n).2 = .valueAndDone v → left s = [v]
  wait : ∀ {s n}, (S.resume s n).2 = .wait → left (S.resume s n).1 = left s
  done : ∀ {s n}, (S.resume s n).2 = .done → left s = []
  noError : ∀ {s n m}, (S.resume s n).2 ≠ .error m
  pollDone : ∀ {s}, S.poll s = .done → left s = []
  pollError : ∀ {s m}, S.poll s ≠ .error m
  event : ∀ {s e}, left (S.event s e) = left s

def GraphRun.opsAt (g : GraphRun σ α ρ μ ε) : Nat → List (Inline α)
  | 0 => g.path.lead
  | k + 1 => g.after k

def StageOp.spent (op : StageOp α ρ) (s : Slot α) : Bool :=
  match op with
  | .sorted _ => s.flushed
  | .reduce _ _ => s.value.isNone
  | _ => true

def StageOp.behind (op : StageOp α ρ) (s : Slot α) : Bool :=
  match op with
  | .sorted _ => s.started || s.flushed
  | .reduce _ _ => s.value.isNone
  | _ => true

namespace GraphState

variable (g : GraphRun σ α ρ μ ε) (left : σ → List α) (d : GraphState σ α μ)

def sourceLeft : List α := if d.sourceDone then [] else left d.source

def rawAt : Nat → List α
  | 0 => d.sourceLeft left
  | k + 1 =>
    d.waiting k ++
      match g.path.stages[k]? with
      | some st => stageOut g.options st.op (d.slots k) (inlineOut (g.opsAt k) (rawAt k))
      | none => []

def Before : Nat → Prop
  | 0 => True
  | k + 1 =>
    Before k ∧ InlineSucceeds (g.opsAt k) (d.rawAt g left k) ∧
      (∀ st, g.path.stages[k]? = some st →
        StageSucceeds g.options st.op (d.slots k) (inlineOut (g.opsAt k) (d.rawAt g left k))) ∧
      d.WaitingSucceeds k

def rest : List α := outFrom g.options d 0 g.path.stages (inlineOut g.path.lead (d.sourceLeft left))

def Succeeds : Prop := Succeeding g.options d 0 g.path.lead g.path.stages (d.sourceLeft left)

variable {j : Nat}

section Split

variable {g left d} {d' : GraphState σ α μ} {k : Nat}

theorem rest_eq (hk : k ≤ g.path.stages.length) :
    d.rest g left =
      outFrom g.options d k (g.path.stages.drop k) (inlineOut (g.opsAt k) (d.rawAt g left k)) := by
  induction k with
  | zero => simp [rest, opsAt, rawAt]
  | succ k ih =>
    have hst := List.getElem?_eq_getElem hk
    rw [ih (by omega), List.drop_eq_getElem_cons hk]
    simp [outFrom, rawAt, hst, opsAt, after]

theorem succeeds_iff (hk : k ≤ g.path.stages.length) :
    d.Succeeds g left ↔ d.Before g left k ∧
      Succeeding g.options d k (g.opsAt k) (g.path.stages.drop k) (d.rawAt g left k) := by
  induction k with
  | zero => simp [Succeeds, Before, opsAt, rawAt]
  | succ k ih =>
    have hst := List.getElem?_eq_getElem hk
    rw [ih (by omega), List.drop_eq_getElem_cons hk]
    simp only [Before, Succeeding, SucceedsFrom, rawAt, hst, Option.some.injEq, forall_eq',
      opsAt, after]
    tauto

structure SameBefore (left : σ → List α) (d d' : GraphState σ α μ) (k : Nat) : Prop where
  source : d'.sourceLeft left = d.sourceLeft left
  slots : ∀ j, j < k → d'.slots j = d.slots j
  frames : ∀ j, j < k → SameAt d d' j

theorem SameBefore.mono (h : SameBefore left d d' k) (hj : j ≤ k) : SameBefore left d d' j :=
  ⟨h.source,fun i hi => h.slots i (by omega),fun i hi => h.frames i (by omega)⟩

theorem rawAt_congr (h : SameBefore left d d' k) : d'.rawAt g left k = d.rawAt g left k := by
  induction k with
  | zero => exact h.source
  | succ k ih =>
    simp [rawAt, h.slots k (Nat.lt_succ_self k), (h.frames k (Nat.lt_succ_self k)).waiting, ih (h.mono (Nat.le_succ k))]

theorem before_congr (h : SameBefore left d d' k) : d'.Before g left k ↔ d.Before g left k := by
  induction k with
  | zero => exact Iff.rfl
  | succ k ih =>
    simp [Before, h.slots k (Nat.lt_succ_self k), ih (h.mono (Nat.le_succ k)), rawAt_congr (h.mono (Nat.le_succ k)), (h.frames k (Nat.lt_succ_self k)).succeeds]

end Split

/-- What holds of the data plane between two units.  Once an operator has begun to hand on its
result nothing comes to it any more, and a continuation belongs to a FLAT_MAP whose input has
passed everything before it. -/
structure PlaneInv (g : GraphRun σ α ρ μ ε) (d : GraphState σ α μ) : Prop where
  stack : d.frames.Pairwise fun f f' => f'.position < f.position
  machine : ∀ f ∈ d.frames, (∃ gen, f.machine = .generator gen) ∧
    ∃ st, g.path.stages[f.position]? = some st ∧ st.op.isFlatMap = true
  closed : ∀ j st, g.path.stages[j]? = some st → st.op.closed (d.slots j) = true →
    d.sourceDone = true ∧ (∀ f ∈ d.frames, f.done = true ∨ j < f.position) ∧
      ∀ i st', i < j → g.path.stages[i]? = some st' → st'.op.spent (d.slots i) = true
  behind : ∀ f ∈ d.frames, f.done = false → ∀ i st, i < f.position →
    g.path.stages[i]? = some st → st.op.behind (d.slots i) = true
  flushed : ∀ j fn seed st, g.path.stages[j]? = some st → st.op = .reduce fn seed →
    (d.slots j).reduceFlushed = true → (d.slots j).value = none

structure Entry (g : GraphRun σ α ρ μ ε) (d : GraphState σ α μ) (k : Nat) : Prop where
  inv : PlaneInv g d
  length : k ≤ g.path.stages.length
  position : ∀ f ∈ d.frames, f.position < k
  opened : OpenFrom g d k
  behind : ∀ i st, i < k → g.path.stages[i]? = some st → st.op.behind (d.slots i) = true

section Slots

variable {op : StageOp α ρ} {s s' : Slot α}

theorem closed_of_marks (h : s'.marks = s.marks) : op.closed s' = op.closed s := by
  simp only [Slot.marks, Prod.mk.injEq] at h
  cases op <;> simp [closed, h]

theorem behind_of_passes (h : op.passes = true) : op.behind s = true := by
  cases op <;> simp_all [passes, behind]

theorem behind_of_flatMap (h : op.isFlatMap = true) : op.behind s = true := by
  cases op <;> simp_all [isFlatMap, behind]

theorem behind_of_spent (h : op.spent s = true) : op.behind s = true := by
  cases op <;> simp_all [spent, behind]

variable {g : GraphRun σ α ρ μ ε} {j : Nat} {st : Stage α ρ}

theorem spent_cutSlot (hj : g.path.stages[j]? = some st) (h : st.op.behind s = true) :
    st.op.spent (g.cutSlot j s) = true := by
  cases hop : st.op <;>
    simp_all [behind, spent, cutSlot, isSorted]

theorem behind_cutSlot (hj : g.path.stages[j]? = some st) (h : st.op.behind s = true) :
    st.op.behind (g.cutSlot j s) = true := behind_of_spent (spent_cutSlot hj h)

@[simp] theorem cutSlot_value : (g.cutSlot j s).value = s.value := by
  unfold cutSlot
  split <;> rfl

@[simp] theorem cutSlot_reduceFlushed : (g.cutSlot j s).reduceFlushed = s.reduceFlushed := by
  unfold cutSlot
  split <;> rfl

variable {o : EvalOptions α}

theorem stageOut_spent_nil (h : op.spent s = true) : stageOut o op s [] = [] := by
  cases op <;> simp_all [spent, stageOut, distinctFrom, reduceFrom]

theorem succeeds_cutSlot {xs : List α} (hj : g.path.stages[j]? = some st)
    (h : StageSucceeds o st.op s xs) : StageSucceeds o st.op (g.cutSlot j s) [] := by
  have := h.nil
  cases hop : st.op <;>
    simp_all [StageSucceeds, cutSlot, isSorted]

end Slots

/-- Nothing is left before the stage `k`: the source is done, no continuation has a value, and every
operator has handed on its result. -/
structure DrainedTo (g : GraphRun σ α ρ μ ε) (left : σ → List α) (d : GraphState σ α μ) (k : Nat) :
    Prop where
  source : d.sourceLeft left = []
  frames : ∀ f ∈ d.frames, f.position < k → f.done = true
  spent : ∀ i st, i < k → g.path.stages[i]? = some st → st.op.spent (d.slots i) = true

theorem DrainedTo.rawAt {g : GraphRun σ α ρ μ ε} {left : σ → List α} {d : GraphState σ α μ} {k : Nat}
    (h : DrainedTo g left d k) : d.rawAt g left k = [] := by
  induction k with
  | zero => exact h.source
  | succ k ih =>
    have hk := ih ⟨h.source,fun f hf hp => h.frames f hf (by omega),
      fun i st hi => h.spent i st (by omega)⟩
    have hw : d.waiting k = [] := by
      simp only [waiting, List.flatMap_eq_nil_iff, List.mem_filter, beq_iff_eq]
      rintro f ⟨hf,hp⟩
      simp [Frame.left, h.frames f hf (by omega)]
    simp only [GraphState.rawAt, hw, hk]
    cases hst : g.path.stages[k]? with
    | none => rfl
    | some st => exact stageOut_spent_nil (h.spent k st (Nat.lt_succ_self k) hst)

section Travel

variable {g : GraphRun σ α ρ μ ε} {left : σ → List α} {d d' : GraphState σ α μ} {k : Nat}
  {ops : List (Inline α)} {stages : List (Stage α ρ)} {v : α} {e : PathEnd α} {cut : Bool}

theorem Travel.mem_frames (h : Travel g d k ops stages v d' e cut) {f : Frame α μ}
    (hf : f ∈ d'.frames) :
    (f.done = false ∧ (∃ gen, f.machine = .generator gen) ∧ k ≤ f.position ∧
      (∃ st, g.path.stages[f.position]? = some st ∧ st.op.isFlatMap = true) ∧
      ∀ i st, k ≤ i → i < f.position → g.path.stages[i]? = some st → st.op.passes = true) ∨
    ∃ f₀ ∈ d.frames, f = if cut then Frame.stop g.relations f₀ else f₀ := by
  obtain ⟨new,hnew,hfr⟩ := h.frames
  rw [hfr] at hf
  rcases List.mem_append.1 hf with hm | hm
  · rcases hnew with rfl | ⟨q,gen,st,rfl,hq,hst,hfl,hpass⟩
    · cases hm
    · rw [List.mem_singleton] at hm
      subst hm
      exact .inl ⟨rfl,⟨gen,rfl⟩,hq,⟨st,hst,hfl⟩,hpass⟩
  · refine .inr ?_
    cases cut
    · exact ⟨f,hm,rfl⟩
    · obtain ⟨f₀,hf₀,rfl⟩ := List.mem_map.1 hm
      exact ⟨f₀,hf₀,rfl⟩

theorem stop_if_position (f : Frame α μ) :
    (if cut then Frame.stop g.relations f else f).position = f.position := by
  cases cut <;> rfl

section

variable (h : Travel g d k ops stages v d' e cut)

include h

variable {st : Stage α ρ}

theorem Travel.closed_lt (hE : Entry g d k) (hj : g.path.stages[j]? = some st)
    (hc : st.op.closed (d'.slots j) = true) : j < k := by
  by_contra hge
  rw [closed_of_marks (h.marks j (by omega)), hE.opened j st (by omega) hj] at hc
  cases hc

theorem Travel.behind (hE : Entry g d k) {i : Nat}
    (hi : i < k) (hst : g.path.stages[i]? = some st) : st.op.behind (d'.slots i) = true := by
  rw [h.slots i hi]
  split
  · exact behind_cutSlot hst (hE.behind i st hi hst)
  · exact hE.behind i st hi hst

theorem Travel.inv (hE : Entry g d k) : PlaneInv g d' where
  stack := by
    obtain ⟨new,hnew,hfr⟩ := h.frames
    rw [hfr, List.pairwise_append]
    refine ⟨?_,?_,fun f hf f' hf' => ?_⟩
    · rcases hnew with rfl | ⟨q,gen,st,rfl,-⟩ <;> simp
    · split
      · exact List.pairwise_map.2 hE.inv.stack
      · exact hE.inv.stack
    · have h1 := Fresh.position_le hnew f hf
      have h2 : f'.position < k := by
        split at hf'
        · obtain ⟨f₀,hf₀,rfl⟩ := List.mem_map.1 hf'
          exact hE.position f₀ hf₀
        · exact hE.position f' hf'
      omega
  machine f hf := by
    rcases h.mem_frames hf with ⟨-,hgen,-,hst,-⟩ | ⟨f₀,hf₀,rfl⟩
    · exact ⟨hgen,hst⟩
    obtain ⟨⟨gen,hgen⟩,hst⟩ := hE.inv.machine f₀ hf₀
    rw [stop_if_position]
    refine ⟨⟨gen,?_⟩,hst⟩
    cases cut
    · exact hgen
    · simp [Frame.stop, hgen, Machine.cancel]
  closed j st hj hc := by
    have hlt := h.closed_lt hE hj hc
    cases hcut : cut with
    | false =>
      -- nothing before `k` has changed
      have hslots : ∀ i, i < k → d'.slots i = d.slots i := fun i hi => by simpa [hcut] using h.slots i hi
      rw [hslots j hlt] at hc
      obtain ⟨hdone,hfr,hspent⟩ := hE.inv.closed j st hj hc
      refine ⟨by rw [h.sourceDone, hdone, Bool.or_true],fun f hf => ?_,fun i st' hi hst' => ?_⟩
      · rcases h.mem_frames hf with ⟨-,-,hq,-⟩ | ⟨f₀,hf₀,rfl⟩
        · exact .inr (by omega)
        · simpa [hcut] using hfr f₀ hf₀
      · rw [hslots i (by omega)]
        exact hspent i st' hi hst'
    | true =>
      refine ⟨by rw [h.sourceDone, hcut, Bool.true_or],fun f hf => ?_,fun i st' hi hst' => ?_⟩
      · rcases h.mem_frames hf with ⟨-,-,hq,-⟩ | ⟨f₀,hf₀,rfl⟩
        · exact .inr (by omega)
        · simp [hcut, Frame.stop]
      · rw [h.slots i (by omega), hcut, if_pos rfl]
        exact spent_cutSlot hst' (hE.behind i st' (by omega) hst')
  behind f hf hd i st hi hst := by
    rcases h.mem_frames hf with ⟨-,-,-,-,hpass⟩ | ⟨f₀,hf₀,rfl⟩
    · rcases Nat.lt_or_ge i k with hlt | hge
      · exact h.behind hE hlt hst
      · exact behind_of_passes (hpass i st hge hi hst)
    · rw [stop_if_position] at hi
      exact h.behind hE (Nat.lt_trans hi (hE.position f₀ hf₀)) hst
  flushed j fn seed st hj hop hr := by
    have hc : st.op.closed (d'.slots j) = true := by simpa [hop, closed] using hr
    have hlt := h.closed_lt hE hj hc
    rw [h.slots j hlt] at hr ⊢
    split at hr
    · rw [if_pos ‹_›, cutSlot_value]
      exact hE.inv.flushed j fn seed st hj hop (by simpa using hr)
    · rw [if_neg ‹_›]
      exact hE.inv.flushed j fn seed st hj hop hr

end

theorem Travel.drained (h : Travel g d k ops stages v d' e true) (hE : Entry g d k) :
    DrainedTo g left d' k where
  source := by simp [sourceLeft, h.sourceDone]
  frames f hf hlt := by
    rcases h.mem_frames hf with ⟨-,-,hq,-⟩ | ⟨f₀,hf₀,rfl⟩
    · omega
    · rfl
  spent i st hi hst := by
    rw [h.slots i hi]
    exact spent_cutSlot hst (hE.behind i st hi hst)

theorem Travel.sameBefore (h : Travel g d k ops stages v d' e false) : SameBefore left d d' k where
  source := by simp [sourceLeft, h.sourceDone, h.source]
  slots j hj := h.slots j hj
  frames j hj := .of_filter <| by
    obtain ⟨new,hnew,hfr⟩ := h.frames
    rw [hfr, if_neg Bool.false_ne_true, List.filter_append, filter_position_eq_nil, List.nil_append]
    intro f hf
    have := Fresh.position_le hnew f hf
    omega

theorem Travel.before_cut (h : Travel g d k ops stages v d' e true) (hE : Entry g d k)
    (hj : j ≤ k) (hb : d.Before g left j) : d'.Before g left j := by
  induction j with
  | zero => trivial
  | succ j ih =>
    obtain ⟨hb,-,hst,-⟩ := hb
    have hdr : DrainedTo g left d' k := h.drained hE
    have hraw : d'.rawAt g left j = [] :=
      DrainedTo.rawAt ⟨hdr.source,fun f hf hp => hdr.frames f hf (by omega),
        fun i st hi => hdr.spent i st (by omega)⟩
    refine ⟨ih (by omega) hb,?_,fun st hs => ?_,fun f hf hp hd => ?_⟩
    · rw [hraw]
      exact inlineSucceeds_nil
    · rw [hraw, h.slots j hj]
      exact succeeds_cutSlot hs (hst st hs)
    · rw [hdr.frames f hf (by omega)] at hd
      cases hd

section

variable (h : Travel g d k (g.opsAt k) (g.path.stages.drop k) v d' e cut)

include h

section

variable (hE : Entry g d k) (he : e.isFailed = false)

include hE he

theorem Travel.rest :
    outFrom g.options d k (g.path.stages.drop k)
        (inlineOut (g.opsAt k) (v :: d.rawAt g left k)) = e.values ++ d'.rest g left := by
  rw [h.out he, rest_eq hE.length]
  cases cut with
  | false => rw [rawAt_congr h.sameBefore]
  | true => rw [(h.dry rfl _).1, (h.dry rfl (inlineOut _ (d'.rawAt g left k))).1]

theorem Travel.succeeds_rest (hb : d.Before g left k)
    (hs : Succeeding g.options d k (g.opsAt k) (g.path.stages.drop k) (v :: d.rawAt g left k)) :
    d'.Succeeds g left := by
  rw [succeeds_iff hE.length]
  have hs' := (h.succeeds he _).1 hs
  cases cut with
  | false => exact ⟨(before_congr h.sameBefore).2 hb,by rwa [rawAt_congr h.sameBefore]⟩
  | true =>
    refine ⟨h.before_cut hE le_rfl hb,?_⟩
    have hraw : d'.rawAt g left k = [] := DrainedTo.rawAt (h.drained hE)
    rw [hraw]
    exact ⟨inlineSucceeds_nil,(h.dry rfl _).2 hs'.2⟩

theorem Travel.succeeds_back (hcut : ∀ st ∈ g.path.stages, st.op.strict = true)
    (hs : d'.Succeeds g left) :
    d.Before g left k ∧
      Succeeding g.options d k (g.opsAt k) (g.path.stages.drop k) (v :: d.rawAt g left k) := by
  obtain ⟨hb,hs⟩ := (succeeds_iff hE.length).1 hs
  cases cut with
  | false =>
    rw [rawAt_congr h.sameBefore] at hs
    exact ⟨(before_congr h.sameBefore).1 hb,(h.succeeds he _).2 hs⟩
  | true =>
    obtain ⟨st,hst,htake⟩ := h.filled rfl
    have hstrict := hcut st hst
    cases hop : st.op <;> simp [hop, strict, isTake] at htake hstrict

end

end

theorem frames_length_le {frames : List (Frame α μ)}
    (hp : frames.Pairwise fun f f' => f'.position < f.position)
    (hm : ∀ f ∈ frames, ∃ st, g.path.stages[f.position]? = some st ∧ st.op.isFlatMap = true)
    (hk : ∀ f ∈ frames, f.position < k) : frames.length ≤ flatMaps (g.path.stages.take k) := by
  induction frames generalizing k with
  | nil => simp
  | cons f frames ih =>
    obtain ⟨st,hst,hfl⟩ := hm f (.head _ ..)
    rw [List.pairwise_cons] at hp
    have hrest := ih hp.2 (fun f' hf' => hm f' (.tail _ hf')) hp.1
    have htake : flatMaps (g.path.stages.take (f.position+1)) =
        flatMaps (g.path.stages.take f.position)+1 := by
      rw [List.take_add_one, hst]
      simp [flatMaps, hfl]
    have hmono : flatMaps (g.path.stages.take (f.position+1)) ≤
        flatMaps (g.path.stages.take k) :=
      List.Sublist.countP_le
        (List.take_sublist_take_left (hk f (.head _ ..)))
    simp only [List.length_cons]
    omega

theorem Entry.room (h : Entry g d k) (hmax : flatMaps g.path.stages ≤ maxContinuations) :
    d.frames.length + flatMaps (g.path.stages.drop k) ≤ maxContinuations := by
  have h1 := frames_length_le h.inv.stack (fun f hf => (h.inv.machine f hf).2) h.position
  have h2 : flatMaps g.path.stages =
      flatMaps (g.path.stages.take k)+flatMaps (g.path.stages.drop k) := by
    conv_lhs => rw [← List.take_append_drop k g.path.stages]
    simp only [flatMaps, List.countP_append]
  omega

end Travel

end GraphState

end Salts.CFlow
