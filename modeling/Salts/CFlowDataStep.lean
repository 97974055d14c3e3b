import Salts.CFlowData

/-!
What one value does on its way along the path: to the values that are still to come out of the
stages behind it, and to the source, the continuations and the operators before it.
-/

namespace Salts.CFlow

variable {σ α ρ μ ε : Type}

section Inline

variable {ops : List (Inline α)} {v w : α} {xs ys : List α}

@[simp] theorem inlineOut_nil : inlineOut ops [] = [] := rfl

@[simp] theorem inlineOut_no_ops : inlineOut ([] : List (Inline α)) xs = xs := by
  simp [inlineOut, runInline, NodeAction.passed]

theorem inlineOut_cons :
    inlineOut ops (v :: xs) = (runInline ops v).passed.toList ++ inlineOut ops xs := by
  cases h : (runInline ops v).passed <;> simp [inlineOut, h]

theorem inlineOut_cont (h : runInline ops v = .cont w) :
    inlineOut ops (v :: xs) = w :: inlineOut ops xs := by
  rw [inlineOut_cons, h]
  rfl

theorem inlineSucceeds_cons :
    InlineSucceeds ops (v :: xs) ↔ (runInline ops v).failed = false ∧ InlineSucceeds ops xs := by
  simp [InlineSucceeds]

theorem inlineSucceeds_append :
    InlineSucceeds ops (xs ++ ys) ↔ InlineSucceeds ops xs ∧ InlineSucceeds ops ys := by
  simp only [InlineSucceeds, List.mem_append]
  exact ⟨fun h => ⟨fun x hx => h x (.inl hx),fun x hx => h x (.inr hx)⟩,
    fun h x hx => hx.elim (h.1 x) (h.2 x)⟩

@[simp] theorem inlineSucceeds_nil : InlineSucceeds ops [] := nofun

@[simp] theorem inlineSucceeds_no_ops : InlineSucceeds ([] : List (Inline α)) xs :=
  fun _ _ => rfl

end Inline

def StageOp.closed (op : StageOp α ρ) (s : Slot α) : Bool :=
  match op with
  | .sorted _ => s.started || s.flushed
  | .reduce _ _ => s.reduceFlushed
  | _ => false

def StageOp.passes : StageOp α ρ → Bool
  | .take _ => true
  | .skip _ => true
  | .distinct _ => true
  | _ => false

def StageOp.isFlatMap : StageOp α ρ → Bool
  | .flatMap _ => true
  | _ => false

def StageOp.isTake : StageOp α ρ → Bool
  | .take _ => true
  | _ => false

/-- Operators that keep a failure still to happen: a TAKE may end their input before it, and a
DISTINCT or SORTED leaves the check of its bound behind. -/
def StageOp.strict : StageOp α ρ → Bool
  | .take _ => false
  | .distinct _ => false
  | .sorted _ => false
  | _ => true

def StageOp.isRelation : StageOp α ρ → Bool
  | .relation _ => true
  | _ => false

def Slot.marks (s : Slot α) : Bool × Bool × Bool := (s.started, s.flushed, s.reduceFlushed)

/-- The value `v` turns the slot `s` of an operator into `s'`, and `emits` leaves the operator. -/
structure SlotStep (o : EvalOptions α) (op : StageOp α ρ) (s : Slot α) (v : α) (s' : Slot α)
    (emits : List α) : Prop where
  out : ∀ xs, stageOut o op s (v :: xs) = emits ++ stageOut o op s' xs
  succeeds : ∀ xs, StageSucceeds o op s (v :: xs) ↔ StageSucceeds o op s' xs
  marks : s'.marks = s.marks

variable {o : EvalOptions α} {op : StageOp α ρ}

theorem stageOut_passes_nil (s : Slot α) (h : op.passes = true) : stageOut o op s [] = [] := by
  cases op <;> simp_all [StageOp.passes, stageOut, distinctFrom]

theorem StageSucceeds.nil {s : Slot α} {xs : List α}
    (h : StageSucceeds o op s xs) : StageSucceeds o op s [] := by
  cases op
  case distinct m =>
    simp only [StageSucceeds, distinctFrom] at h ⊢
    simp only [List.length_nil]
    omega
  case sorted m =>
    intro h1 h2
    have := h h1 h2
    simp only [List.length_nil]
    omega
  case relation => exact h
  all_goals simp [StageSucceeds, ReduceSucceeds]

variable {j k : Nat}

namespace GraphState

section Congr

variable {o : EvalOptions α} {d d' : GraphState σ α μ} {k : Nat} {stages : List (Stage α ρ)}
  {xs : List α}

structure SameAt (d d' : GraphState σ α μ) (j : Nat) : Prop where
  waiting : d'.waiting j = d.waiting j
  succeeds : d'.WaitingSucceeds j ↔ d.WaitingSucceeds j

theorem SameAt.of_filter
    (h : d'.frames.filter (fun f => f.position == j) = d.frames.filter fun f => f.position == j) :
    SameAt d d' j := by
  have hmem : ∀ f : Frame α μ, (f ∈ d'.frames ∧ f.position = j) ↔ (f ∈ d.frames ∧ f.position = j) := by
    intro f
    have := congrArg (f ∈ ·) h
    simpa using this
  refine ⟨by simp [GraphState.waiting, h],fun hs f hf hk => ?_,fun hs f hf hk => ?_⟩
  · exact hs f ((hmem f).2 ⟨hf,hk⟩).1 hk
  · exact hs f ((hmem f).1 ⟨hf,hk⟩).1 hk

structure SameFrom (d d' : GraphState σ α μ) (k : Nat) : Prop where
  slots : ∀ j, k ≤ j → d'.slots j = d.slots j
  frames : ∀ j, k ≤ j → SameAt d d' j

theorem SameFrom.succ (h : SameFrom d d' k) : SameFrom d d' (k + 1) :=
  ⟨fun j hj => h.slots j (by omega),fun j hj => h.frames j (by omega)⟩

theorem outFrom_congr (h : SameFrom d d' k) : outFrom o d' k stages xs = outFrom o d k stages xs := by
  induction stages generalizing k xs with
  | nil => rfl
  | cons st stages ih =>
    have hk := h.frames k le_rfl
    simp only [outFrom, hk.waiting, h.slots k (Nat.le_refl k)]
    exact ih h.succ

theorem succeedsFrom_congr (h : SameFrom d d' k) :
    SucceedsFrom o d' k stages xs ↔ SucceedsFrom o d k stages xs := by
  induction stages generalizing k xs with
  | nil => exact Iff.rfl
  | cons st stages ih =>
    have hk := h.frames k le_rfl
    simp [SucceedsFrom, hk.waiting, hk.succeeds, h.slots k (Nat.le_refl k), ih h.succ]

end Congr

inductive Handles (g : GraphRun σ α ρ μ ε) (d : GraphState σ α μ) (k : Nat) (st : Stage α ρ) (v : α) :
    GraphState σ α μ → NodeAction α → Prop
  | pass (s' : Slot α) (hp : st.op.passes = true)
      (hs : SlotStep g.options st.op (d.slots k) v s' [v]) : Handles g d k st v (d.setSlot k s') (.cont v)
  | passLast (s' : Slot α) (hp : st.op.passes = true)
      (hs : SlotStep g.options st.op (d.slots k) v s' [v]) (htake : st.op.isTake = true)
      (hlast : ∀ xs, stageOut g.options st.op s' xs = []) :
      Handles g d k st v ((d.setSlot k s').shortCircuit g st.id) (.cont v)
  | absorb (s' : Slot α) (hs : SlotStep g.options st.op (d.slots k) v s' []) :
      Handles g d k st v (d.setSlot k s') .stop
  | push (fn : Callable α (Generation α)) (hop : st.op = .flatMap fn) :
      Handles g d k st v (d.push k (.generator (fn.generate v))) .stop
  | full (status : Status) (message : String) (hop : st.op.isFlatMap = true)
      (hf : maxContinuations ≤ d.frames.length) : Handles g d k st v d (.fail status message)
  | refuse (status : Status) (message : String)
      (hs : ∀ xs, ¬StageSucceeds g.options st.op (d.slots k) (v :: xs)) :
      Handles g d k st v d (.fail status message)

section Handlers

variable {g : GraphRun σ α ρ μ ε} {d : GraphState σ α μ} {k : Nat} {st : Stage α ρ} {v : α}

@[simp] theorem setSlot_self : d.setSlot k (d.slots k) = d := by
  simp [setSlot]

theorem handles_take {limit : Nat} (hop : st.op = .take limit) :
    Handles g d k st v (d.semantic g k st v).1 (d.semantic g k st v).2 := by
  simp only [semantic, hop]
  split
  · -- the limit is reached already
    have : SlotStep g.options st.op (d.slots k) v (d.slots k) [] :=
      ⟨fun xs => by simp [stageOut, hop, Nat.sub_eq_zero_of_le ‹_›],fun xs => by
        simp [StageSucceeds, hop],rfl⟩
    simpa using Handles.absorb _ this
  · have hlt : limit-(d.slots k).count = limit-((d.slots k).count+1)+1 := by omega
    have hs : SlotStep g.options st.op (d.slots k) v
        { d.slots k with count := (d.slots k).count + 1 } [v] :=
      ⟨fun xs => by simp [stageOut, hop, hlt],fun xs => by simp [StageSucceeds, hop],rfl⟩
    have hp : st.op.passes = true := by rw [hop]; rfl
    split
    · exact .passLast _ hp hs (by rw [hop]; rfl) fun xs => by
        simp only [stageOut, hop]
        rw [show limit-((d.slots k).count+1) = 0 by omega, List.take_zero]
    · exact .pass _ hp hs

theorem handles_skip {count : Nat} (hop : st.op = .skip count) :
    Handles g d k st v (d.semantic g k st v).1 (d.semantic g k st v).2 := by
  simp only [semantic, hop]
  split
  · have hlt : count-(d.slots k).count = count-((d.slots k).count+1)+1 := by omega
    refine .absorb _ ⟨fun xs => ?_,fun xs => ?_,rfl⟩
    · simp [stageOut, hop, hlt]
    · simp [StageSucceeds, hop]
  · have hz : count-(d.slots k).count = 0 := by omega
    have : SlotStep g.options st.op (d.slots k) v (d.slots k) [v] :=
      ⟨fun xs => by simp [stageOut, hop, hz],fun xs => by simp [StageSucceeds, hop],rfl⟩
    simpa using Handles.pass _ (by rw [hop]; rfl) this

theorem handles_distinct {maxUnique : Nat} (hop : st.op = .distinct maxUnique) :
    Handles g d k st v (d.semantic g k st v).1 (d.semantic g k st v).2 := by
  simp only [semantic, hop]
  split
  · rename_i hseen
    have : SlotStep g.options st.op (d.slots k) v (d.slots k) [] :=
      ⟨fun xs => by simp [stageOut, hop, distinctFrom, hseen],
        fun xs => by simp [StageSucceeds, hop, distinctFrom, hseen],rfl⟩
    simpa using Handles.absorb _ this
  · rename_i hseen
    split
    · refine .refuse _ _ fun xs hs => ?_
      simp only [StageSucceeds, hop, distinctFrom, hseen, Bool.false_eq_true, if_false,
        List.length_cons] at hs
      omega
    · refine .pass _ (by rw [hop]; rfl) ⟨fun xs => ?_,fun xs => ?_,rfl⟩
      · simp [stageOut, hop, distinctFrom, hseen]
      · simp only [StageSucceeds, hop, distinctFrom, hseen, Bool.false_eq_true, if_false,
          List.length_cons, List.length_append, List.length_nil]
        omega

theorem handles_sorted {maxElements : Nat} (hop : st.op = .sorted maxElements)
    (hc : st.op.closed (d.slots k) = false) :
    Handles g d k st v (d.semantic g k st v).1 (d.semantic g k st v).2 := by
  obtain ⟨hst,hfl⟩ : (d.slots k).started = false ∧ (d.slots k).flushed = false := by
    simpa [StageOp.closed, hop] using hc
  simp only [semantic, hop]
  split
  · refine .refuse _ _ fun xs hs => ?_
    have := by simpa only [StageSucceeds, hop, List.length_cons] using hs
    have := this hfl hst
    omega
  · refine .absorb _ ⟨fun xs => ?_,fun xs => ?_,rfl⟩
    · simp [stageOut, hop, hst]
    · simp only [StageSucceeds, hop, List.length_cons, List.length_append, List.length_nil]
      rw [Nat.add_assoc, Nat.add_comm 1]

theorem handles_reduce {fn : Callable (α × α) α} {seed : Option α} (hop : st.op = .reduce fn seed) :
    Handles g d k st v (d.semantic g k st v).1 (d.semantic g k st v).2 := by
  simp only [semantic, hop]
  cases hv : (d.slots k).value with
  | none =>
    refine .absorb _ ⟨fun xs => ?_,fun xs => ?_,rfl⟩
    · simp [stageOut, hop, hv, reduceFrom]
    · simp [StageSucceeds, hop, hv, ReduceSucceeds]
  | some a =>
    dsimp only
    cases hi : fn.invoke (a,v) with
    | none =>
      refine .refuse _ _ fun xs hs => ?_
      simp [StageSucceeds, hop, hv, ReduceSucceeds, hi] at hs
    | some b =>
      refine .absorb _ ⟨fun xs => ?_,fun xs => ?_,rfl⟩
      · simp [stageOut, hop, hv, reduceFrom, hi]
      · simp [StageSucceeds, hop, hv, ReduceSucceeds, hi]

theorem handles_semantic (hrel : st.op.isRelation = false) (hc : st.op.closed (d.slots k) = false) :
    Handles g d k st v (d.semantic g k st v).1 (d.semantic g k st v).2 := by
  cases hop : st.op with
  | take limit => exact handles_take hop
  | skip count => exact handles_skip hop
  | distinct maxUnique => exact handles_distinct hop
  | sorted maxElements => exact handles_sorted hop hc
  | reduce fn seed => exact handles_reduce hop
  | flatMap fn =>
    simp only [semantic, hop]
    split
    · exact .full _ _ (by rw [hop]; rfl) ‹_›
    · exact .push fn hop
  | relation r => simp [hop, StageOp.isRelation] at hrel

end Handlers

end GraphState

def GraphRun.cutSlot (g : GraphRun σ α ρ μ ε) (j : Nat) (s : Slot α) : Slot α :=
  if g.path.stages[j]?.any (fun st => st.op.isSorted) then { s with flushed := true } else s

/-- The continuation a value has left behind on its way from `k` on: at most one, of a FLAT_MAP that
it has reached through operators that hand on at once. -/
def GraphRun.Fresh (g : GraphRun σ α ρ μ ε) (k : Nat) (new : List (Frame α μ)) : Prop :=
  new = [] ∨ ∃ q gen st, new = [{ position := q, machine := .generator gen }] ∧ k ≤ q ∧
    g.path.stages[q]? = some st ∧ st.op.isFlatMap = true ∧
    ∀ i st', k ≤ i → i < q → g.path.stages[i]? = some st' → st'.op.passes = true

def flatMaps (stages : List (Stage α ρ)) : Nat := stages.countP fun st => st.op.isFlatMap

def PathEnd.values : PathEnd α → List α
  | .emitted v => [v]
  | _ => []

def PathEnd.isFailed : PathEnd α → Bool
  | .failed _ _ => true
  | _ => false

namespace GraphState

def Succeeding (o : EvalOptions α) (d : GraphState σ α μ) (k : Nat) (ops : List (Inline α))
    (stages : List (Stage α ρ)) (xs : List α) : Prop :=
  InlineSucceeds ops xs ∧ SucceedsFrom o d k stages (inlineOut ops xs)

/-- The way of `v` from the inline operators before stage `k` to its end `e`.  `cut` is whether it
filled a TAKE, which ends everything before `k`. -/
structure Travel (g : GraphRun σ α ρ μ ε) (d : GraphState σ α μ) (k : Nat) (ops : List (Inline α))
    (stages : List (Stage α ρ)) (v : α) (d' : GraphState σ α μ) (e : PathEnd α) (cut : Bool) :
    Prop where
  out : e.isFailed = false → ∀ xs,
    outFrom g.options d k stages (inlineOut ops (v :: xs)) =
      e.values ++ outFrom g.options d' k stages (inlineOut ops xs)
  succeeds : e.isFailed = false → ∀ xs,
    Succeeding g.options d k ops stages (v :: xs) ↔ Succeeding g.options d' k ops stages xs
  refused : e.isFailed = true → d.frames.length + flatMaps stages ≤ maxContinuations → ∀ xs,
    ¬Succeeding g.options d k ops stages (v :: xs)
  marks : ∀ j, k ≤ j → (d'.slots j).marks = (d.slots j).marks
  sourceDone : d'.sourceDone = (cut || d.sourceDone)
  source : cut = false → d'.source = d.source
  slots : ∀ j, j < k → d'.slots j = if cut then g.cutSlot j (d.slots j) else d.slots j
  frames : ∃ new, g.Fresh k new ∧
    d'.frames = new ++ if cut then d.frames.map (Frame.stop g.relations) else d.frames
  dry : cut = true → ∀ xs,
    outFrom g.options d' k stages xs = outFrom g.options d' k stages [] ∧
      (SucceedsFrom g.options d' k stages xs → SucceedsFrom g.options d' k stages [])
  filled : cut = true → ∃ st ∈ g.path.stages, st.op.isTake = true

section Stage

variable {g : GraphRun σ α ρ μ ε} {d : GraphState σ α μ} {k : Nat} {st : Stage α ρ}
  {stages : List (Stage α ρ)} {v : α} {ops : List (Inline α)}

theorem id_lt_iff (ho : g.path.Ordered) {st' : Stage α ρ} (hk : g.path.stages[k]? = some st)
    (hj : g.path.stages[j]? = some st') : st'.id < st.id ↔ j < k := by
  have hid : ∀ {i : Nat} {x : Stage α ρ}, g.path.stages[i]? = some x →
      (g.path.stages.map Stage.id)[i]? = some x.id := by
    intro i x hx
    simp [hx]
  have hlt : ∀ {a b : Nat} {x y : Stage α ρ}, g.path.stages[a]? = some x →
      g.path.stages[b]? = some y → a < b → x.id < y.id := by
    intro a b x y hx hy hab
    obtain ⟨ha,hax⟩ := List.getElem?_eq_some_iff.1 (hid hx)
    obtain ⟨hb,hby⟩ := List.getElem?_eq_some_iff.1 (hid hy)
    have := List.pairwise_iff_getElem.1 ho a b ha hb hab
    rwa [hax, hby] at this
  constructor
  · intro h
    by_contra hge
    rcases Nat.eq_or_lt_of_le (Nat.le_of_not_lt hge) with rfl | hlt'
    · rw [hk] at hj
      cases hj
      omega
    · have := hlt hk hj hlt'
      omega
  · exact hlt hj hk

theorem shortCircuit_slots (ho : g.path.Ordered) (hk : g.path.stages[k]? = some st) (j : Nat) :
    (d.shortCircuit g st.id).slots j = if j < k then g.cutSlot j (d.slots j) else d.slots j := by
  simp only [shortCircuit, GraphRun.cutSlot]
  cases hj : g.path.stages[j]? with
  | none => simp
  | some st' =>
    simp only [id_lt_iff ho hk hj]
    by_cases h : j < k <;> simp [h]

@[simp] theorem cutSlot_cutSlot (j : Nat) (s : Slot α) :
    g.cutSlot j (g.cutSlot j s) = g.cutSlot j s := by
  unfold GraphRun.cutSlot
  split <;> rfl

@[simp] theorem stop_stop (r : RelationOps α ρ μ) (f : Frame α μ) :
    Frame.stop r (Frame.stop r f) = Frame.stop r f := by
  simp [Frame.stop]

theorem filter_position_eq_nil {l : List (Frame α μ)}
    (h : ∀ f ∈ l, f.position ≠ j) : l.filter (fun f => f.position == j) = [] := by
  simpa using h

theorem waiting_eq_nil (h : ∀ f ∈ d.frames, f.position ≠ j) : d.waiting j = [] := by
  simp [waiting, filter_position_eq_nil h]

theorem waitingSucceeds_of_ne (h : ∀ f ∈ d.frames, f.position ≠ j) :
    d.WaitingSucceeds j := fun f hf hj => absurd hj (h f hf)

theorem Fresh.position_le {new : List (Frame α μ)} (h : g.Fresh k new) :
    ∀ f ∈ new, k ≤ f.position := by
  rcases h with rfl | ⟨q,gen,st,rfl,hq,-⟩
  · simp
  · simpa using hq

theorem Travel.stay (hpass : runInline ops v = .stop) : Travel g d k ops stages v d .stopped false where
  out _ xs := by simp [inlineOut_cons, hpass, NodeAction.passed, PathEnd.values]
  succeeds _ xs := by
    simp [Succeeding, inlineOut_cons, inlineSucceeds_cons, hpass, NodeAction.passed,
      NodeAction.failed]
  refused h := by cases h
  marks _ _ := rfl
  sourceDone := rfl
  source _ := rfl
  slots _ _ := rfl
  frames := ⟨[],.inl rfl,rfl⟩
  dry h := by cases h
  filled h := by cases h

theorem Travel.fail {status : Status} {message : String}
    (h : d.frames.length + flatMaps stages ≤ maxContinuations → ∀ xs,
      ¬Succeeding g.options d k ops stages (v :: xs)) :
    Travel g d k ops stages v d (.failed status message) false where
  out h := by cases h
  succeeds h := by cases h
  refused _ := h
  marks _ _ := rfl
  sourceDone := rfl
  source _ := rfl
  slots _ _ := rfl
  frames := ⟨[],.inl rfl,rfl⟩
  dry h := by cases h
  filled h := by cases h

theorem Travel.inline {w : α} {d' : GraphState σ α μ} {e : PathEnd α} {cut : Bool}
    (hpass : runInline ops v = .cont w) (h : Travel g d k [] stages w d' e cut) :
    Travel g d k ops stages v d' e cut where
  out he xs := by
    rw [inlineOut_cont hpass]
    simpa only [inlineOut_no_ops] using h.out he (inlineOut ops xs)
  succeeds he xs := by
    have := h.succeeds he (inlineOut ops xs)
    simp only [Succeeding, inlineSucceeds_no_ops, inlineOut_no_ops, true_and] at this
    simp [Succeeding, inlineOut_cont hpass, inlineSucceeds_cons, hpass, NodeAction.failed, this]
  refused he hroom xs hs := by
    refine h.refused he hroom (inlineOut ops xs) ⟨inlineSucceeds_no_ops,?_⟩
    rw [inlineOut_no_ops, ← inlineOut_cont hpass]
    exact hs.2
  marks := h.marks
  sourceDone := h.sourceDone
  source := h.source
  slots := h.slots
  frames := h.frames
  dry := h.dry
  filled := h.filled

/-- The state `d'` behind a handler at `k` that has handed its value on: the slot of the node is `s'`,
and when `cut` holds the value has filled a TAKE. -/
structure HandedOn (g : GraphRun σ α ρ μ ε) (d : GraphState σ α μ) (k : Nat) (s' : Slot α)
    (d' : GraphState σ α μ) (cut : Bool) : Prop where
  slot : d'.slots k = s'
  later : ∀ j, k < j → d'.slots j = d.slots j
  earlier : ∀ j, j < k → d'.slots j = if cut then g.cutSlot j (d.slots j) else d.slots j
  frames : d'.frames = if cut then d.frames.map (Frame.stop g.relations) else d.frames
  sourceDone : d'.sourceDone = (cut || d.sourceDone)
  source : cut = false → d'.source = d.source

theorem HandedOn.setSlot (s' : Slot α) : HandedOn g d k s' (d.setSlot k s') false where
  slot := by simp [GraphState.setSlot]
  later j hj := by simp [GraphState.setSlot, Function.update_of_ne (by omega : j ≠ k)]
  earlier j hj := by simp [GraphState.setSlot, Function.update_of_ne (by omega : j ≠ k)]
  frames := rfl
  sourceDone := rfl
  source _ := rfl

theorem HandedOn.shortCircuit (ho : g.path.Ordered) (hk : g.path.stages[k]? = some st) (s' : Slot α) :
    HandedOn g d k s' ((d.setSlot k s').shortCircuit g st.id) true where
  slot := by simp [shortCircuit_slots ho hk, GraphState.setSlot]
  later j hj := by
    simp [shortCircuit_slots ho hk, GraphState.setSlot, Function.update_of_ne (by omega : j ≠ k),
      Nat.not_lt_of_lt hj]
  earlier j hj := by
    simp [shortCircuit_slots ho hk, GraphState.setSlot, Function.update_of_ne (by omega : j ≠ k), hj]
  frames := rfl
  sourceDone := rfl
  source h := by cases h

variable {s' : Slot α} {d₁ d' : GraphState σ α μ} {e : PathEnd α} {cut₀ cut : Bool}

section

variable (h : HandedOn g d k s' d₁ cut₀) (hf : ∀ f ∈ d.frames, f.position < k)

include h hf

theorem HandedOn.position_lt : ∀ f ∈ d₁.frames, f.position < k := by
  rw [h.frames]
  cases cut₀
  · simpa using hf
  · simpa [Frame.stop] using hf

theorem HandedOn.sameFrom : SameFrom d d₁ (k + 1) where
  slots j hj := h.later j (by omega)
  frames j hj := .of_filter <| by
    rw [filter_position_eq_nil fun f hm => by have := h.position_lt hf f hm; omega,
      filter_position_eq_nil fun f hm => by have := hf f hm; omega]

end

theorem Travel.position_ne (h : Travel g d (k + 1) ops stages v d' e cut)
    (hf : ∀ f ∈ d.frames, f.position < k) : ∀ f ∈ d'.frames, f.position ≠ k := by
  obtain ⟨new,hnew,hfr⟩ := h.frames
  rw [hfr]
  intro f hm
  rcases List.mem_append.1 hm with hm | hm
  · have := Fresh.position_le hnew f hm
    omega
  · cases cut
    · exact (hf f (by simpa using hm)).ne
    · obtain ⟨f',hf',rfl⟩ := List.mem_map.1 (by simpa using hm)
      exact (hf f' hf').ne

theorem cutSlot_of_passes (hk : g.path.stages[k]? = some st) (hp : st.op.passes = true)
    (s : Slot α) : g.cutSlot k s = s := by
  have : st.op.isSorted = false := by
    cases hop : st.op <;> simp_all [StageOp.passes, StageOp.isSorted]
  simp [GraphRun.cutSlot, hk, this]

theorem Travel.cons (hk : g.path.stages[k]? = some st) (hf : ∀ f ∈ d.frames, f.position < k)
    (hp : st.op.passes = true) (hs : SlotStep g.options st.op (d.slots k) v s' [v])
    (h₁ : HandedOn g d k s' d₁ cut₀)
    (hlast : cut₀ = true → st.op.isTake = true ∧ ∀ xs, stageOut g.options st.op s' xs = [])
    (ht : Travel g d₁ (k + 1) st.after stages v d' e cut) :
    Travel g d k [] (st :: stages) v d' e (cut₀ || cut) := by
  have hne : ∀ f ∈ d.frames, f.position ≠ k := fun f hm => (hf f hm).ne
  have hne' := ht.position_ne (h₁.position_lt hf)
  have hslot : d'.slots k = s' := by
    rw [ht.slots k (Nat.lt_succ_self k), h₁.slot, cutSlot_of_passes hk hp]
    split <;> rfl
  -- what the stages from `k` on do before and after, in terms of those behind `k`
  have hout : ∀ xs, outFrom g.options d' k (st :: stages) xs =
      outFrom g.options d' (k+1) stages (inlineOut st.after (stageOut g.options st.op s' xs)) := by
    simp [outFrom, waiting_eq_nil hne', hslot]
  have hok : ∀ xs, SucceedsFrom g.options d' k (st :: stages) xs ↔
      StageSucceeds g.options st.op s' xs ∧
        Succeeding g.options d' (k+1) st.after stages (stageOut g.options st.op s' xs) := by
    simp [SucceedsFrom, waiting_eq_nil hne', hslot, Succeeding, waitingSucceeds_of_ne hne']
  have hout₀ : ∀ xs, outFrom g.options d k (st :: stages) (v :: xs) =
      outFrom g.options d₁ (k+1) stages
        (inlineOut st.after (v :: stageOut g.options st.op s' xs)) := by
    intro xs
    simp only [outFrom, waiting_eq_nil hne, hs.out, List.singleton_append]
    exact (outFrom_congr (h₁.sameFrom hf)).symm
  have hok₀ : ∀ xs, SucceedsFrom g.options d k (st :: stages) (v :: xs) ↔
      StageSucceeds g.options st.op s' xs ∧
        Succeeding g.options d₁ (k+1) st.after stages (v :: stageOut g.options st.op s' xs) := by
    simp [SucceedsFrom, waiting_eq_nil hne, hs.out, hs.succeeds, Succeeding, waitingSucceeds_of_ne hne, succeedsFrom_congr (h₁.sameFrom hf)]
  refine ⟨fun he xs => ?_,fun he xs => ?_,fun he hroom xs hx => ?_,fun j hj => ?_,?_,?_,
    fun j hj => ?_,?_,fun hcut xs => ?_,fun hcut => ?_⟩
  · rw [inlineOut_no_ops, inlineOut_no_ops, hout₀, hout, ht.out he]
  · have hgo := ht.succeeds he (stageOut g.options st.op s' xs)
    simp only [Succeeding] at hgo ⊢
    simp [hok₀, hok, Succeeding, hgo]
  · have hlen : d₁.frames.length = d.frames.length := by
      rw [h₁.frames]
      split <;> simp
    have hcount : flatMaps stages ≤ flatMaps (st :: stages) := by
      simp [flatMaps, List.countP_cons]
    refine ht.refused he (by omega) _ ((hok₀ xs).1 ?_).2
    simpa using hx.2
  · rcases Nat.eq_or_lt_of_le hj with rfl | hlt
    · rw [hslot, hs.marks]
    · rw [ht.marks j hlt, h₁.later j hlt]
  · rw [ht.sourceDone, h₁.sourceDone]
    cases cut₀ <;> cases cut <;> rfl
  · intro hcut
    rw [Bool.or_eq_false_iff] at hcut
    rw [ht.source hcut.2, h₁.source hcut.1]
  · rw [ht.slots j (by omega), h₁.earlier j hj]
    cases cut₀ <;> cases cut <;> simp
  · obtain ⟨new,hnew,hfr⟩ := ht.frames
    refine ⟨new,?_,?_⟩
    · rcases hnew with rfl | ⟨q,gen,st',rfl,hq,hst,hfl,hpass⟩
      · exact .inl rfl
      refine .inr ⟨q,gen,st',rfl,by omega,hst,hfl,fun i x hi hiq hx => ?_⟩
      rcases Nat.eq_or_lt_of_le hi with rfl | hlt
      · rw [hk] at hx
        cases hx
        exact hp
      · exact hpass i x hlt hiq hx
    · rw [hfr, h₁.frames]
      cases cut₀ <;> cases cut <;> simp
  · -- nothing that comes to `k` goes on behind the full TAKE
    have hnil : stageOut g.options st.op s' [] = [] := stageOut_passes_nil s' hp
    simp only [hout, hok, hnil, Succeeding, inlineSucceeds_nil, true_and]
    cases cut₀ with
    | true =>
      rw [(hlast rfl).2 xs]
      exact ⟨rfl,fun hx => ⟨hx.1.nil,hx.2.2⟩⟩
    | false =>
      have hdry := ht.dry hcut
        (inlineOut st.after (stageOut g.options st.op s' xs))
      exact ⟨hdry.1,fun hx => ⟨hx.1.nil,hdry.2 hx.2.2⟩⟩
  · rcases Bool.or_eq_true_iff.1 hcut with h₀ | h₀
    · exact ⟨st,List.mem_of_getElem? hk,(hlast h₀).1⟩
    · exact ht.filled h₀

theorem Travel.kept (hf : ∀ f ∈ d.frames, f.position < k)
    (hs : SlotStep g.options st.op (d.slots k) v s' []) :
    Travel g d k [] (st :: stages) v (d.setSlot k s') .stopped false := by
  have hne : ∀ f ∈ d.frames, f.position ≠ k := fun f hm => (hf f hm).ne
  have hne' : ∀ f ∈ (d.setSlot k s').frames, f.position ≠ k := hne
  have h₁ : HandedOn g d k s' (d.setSlot k s') false := .setSlot s'
  refine ⟨fun _ xs => ?_,fun _ xs => ?_,nofun,fun j hj => ?_,rfl,fun _ => rfl,h₁.earlier,
    ⟨[],.inl rfl,rfl⟩,nofun,nofun⟩
  · simp only [inlineOut_no_ops, outFrom, waiting_eq_nil hne, waiting_eq_nil hne', h₁.slot, hs.out]
    exact (outFrom_congr (h₁.sameFrom hf)).symm
  · simp [Succeeding, SucceedsFrom, waiting_eq_nil hne, waiting_eq_nil hne', h₁.slot, hs.out,
      hs.succeeds, waitingSucceeds_of_ne hne, waitingSucceeds_of_ne hne',
      succeedsFrom_congr (h₁.sameFrom hf)]
  · rcases Nat.eq_or_lt_of_le hj with rfl | hlt
    · rw [h₁.slot, hs.marks]
    · rw [h₁.later j hlt]

theorem push_sameFrom (m : Machine α μ) : SameFrom d (d.push k m) (k + 1) where
  slots _ _ := rfl
  frames j hj := .of_filter <| by
    have : (k == j) = false := by simp; omega
    simp [push, this]

theorem Travel.pushed {fn : Callable α (Generation α)} (hop : st.op = .flatMap fn)
    (hk : g.path.stages[k]? = some st) (hf : ∀ f ∈ d.frames, f.position < k) :
    Travel g d k [] (st :: stages) v (d.push k (.generator (fn.generate v))) .stopped false := by
  have hne : ∀ f ∈ d.frames, f.position ≠ k := fun f hm => (hf f hm).ne
  have hwait : (d.push k (.generator (fn.generate v))).waiting k = (fn.generate v).values := by
    simp [waiting, push, filter_position_eq_nil hne, Frame.left]
  have hws : (d.push k (.generator (fn.generate v))).WaitingSucceeds k ↔
      (fn.generate v).ending ≠ .error := by
    constructor
    · intro h
      exact h _ (.head _ ..) rfl rfl
    · intro h f hm hfk
      rcases List.mem_cons.1 hm with rfl | hm
      · exact fun _ => h
      · exact absurd hfk (hne f hm)
  have hsame := push_sameFrom (d := d) (k := k) (.generator (fn.generate v))
  refine ⟨fun _ xs => ?_,fun _ xs => ?_,nofun,fun _ _ => rfl,rfl,fun _ => rfl,fun _ _ => rfl,
    ⟨_,.inr ⟨k,_,st,rfl,le_rfl,hk,by rw [hop]; rfl,fun i _ h1 h2 => by omega⟩,rfl⟩,
    nofun,nofun⟩
  · simp only [outFrom, waiting_eq_nil hne, hwait, hop]
    exact (outFrom_congr hsame).symm
  · simp only [Succeeding, inlineOut_no_ops, SucceedsFrom, hop, waiting_eq_nil hne, hwait,
      StageSucceeds, List.forall_mem_cons, waitingSucceeds_of_ne hne, succeedsFrom_congr hsame]
    tauto

def OpenFrom (g : GraphRun σ α ρ μ ε) (d : GraphState σ α μ) (k : Nat) : Prop :=
  ∀ j st, k ≤ j → g.path.stages[j]? = some st → st.op.closed (d.slots j) = false

theorem OpenFrom.handedOn (h : OpenFrom g d k) (h₁ : HandedOn g d k s' d₁ cut₀) :
    OpenFrom g d₁ (k + 1) := by
  intro j st hj hst
  rw [h₁.later j hj]
  exact h j st (by omega) hst

theorem travel_inline (hpath : ∀ w, ∃ cut,
      Travel g d k [] stages w (d.processPath g k stages w).1 (d.processPath g k stages w).2 cut)
    {r : GraphState σ α μ × PathEnd α}
    (hr : r = match runInline ops v with
      | .cont w => d.processPath g k stages w
      | .stop => (d, .stopped)
      | .fail status message => (d, .failed status message)) :
    ∃ cut, Travel g d k ops stages v r.1 r.2 cut := by
  subst hr
  cases hi : runInline ops v with
  | cont w =>
    obtain ⟨cut,h⟩ := hpath w
    exact ⟨cut,h.inline hi⟩
  | stop => exact ⟨false,.stay hi⟩
  | fail status message =>
    refine ⟨false,.fail fun _ xs hx => ?_⟩
    have := (inlineSucceeds_cons.1 hx.1).1
    simp [hi, NodeAction.failed] at this

end Stage

section Path

variable {g : GraphRun σ α ρ μ ε} (ho : g.path.Ordered)
  (hrel : ∀ st ∈ g.path.stages, st.op.isRelation = false)

include ho hrel

variable {d : GraphState σ α μ}

/-- The way of a value along the stages from `k` on, when no continuation waits there and no
operator there has begun to hand on its result. -/
theorem travel_path {stages : List (Stage α ρ)} {v : α} (hk : g.path.stages.drop k = stages)
    (hf : ∀ f ∈ d.frames, f.position < k) (hopen : OpenFrom g d k) :
    ∃ cut, Travel g d k [] stages v (d.processPath g k stages v).1
      (d.processPath g k stages v).2 cut := by
  induction stages generalizing k d v with
  | nil =>
    refine ⟨false,fun _ xs => ?_,fun _ xs => ?_,nofun,fun _ _ => rfl,rfl,fun _ => rfl,
      fun _ _ => rfl,⟨[],.inl rfl,rfl⟩,nofun,nofun⟩
    · simp [outFrom, processPath, PathEnd.values]
    · simp [Succeeding, SucceedsFrom]
  | cons st stages ih =>
    have hst : g.path.stages[k]? = some st := by
      have := congrArg (fun l => l[0]?) hk
      simpa using this
    have hdrop : g.path.stages.drop (k+1) = stages := by
      rw [← List.drop_drop, hk, List.drop_succ_cons, List.drop_zero]
    have hmem := List.mem_of_getElem? hst
    have hh := handles_semantic (g := g) (v := v) (hrel st hmem)
      (hopen k st le_rfl hst)
    -- the rest of the way of a value that is handed on
    have hon : ∀ {s' d₁ cut₀}, HandedOn g d k s' d₁ cut₀ → ∀ {r : GraphState σ α μ × PathEnd α},
        (r = match runInline st.after v with
          | .cont w => d₁.processPath g (k+1) stages w
          | .stop => (d₁,.stopped)
          | .fail status message => (d₁,.failed status message)) →
        ∃ cut, Travel g d₁ (k+1) st.after stages v r.1 r.2 cut := by
      intro s' d₁ cut₀ h₁ r hr
      exact travel_inline (fun w => ih hdrop
        (fun f hm => Nat.lt_succ_of_lt (h₁.position_lt hf f hm)) (hopen.handedOn h₁)) hr
    rw [processPath]
    generalize hsem : d.semantic g k st v = x at hh
    obtain ⟨d₁,act⟩ := x
    dsimp only at hh ⊢
    cases hh with
    | pass s' hp hs =>
      have h₁ : HandedOn g d k s' (d.setSlot k s') false := .setSlot s'
      obtain ⟨cut,ht⟩ := hon h₁ rfl
      exact ⟨false || cut,.cons hst hf hp hs h₁ nofun ht⟩
    | passLast s' hp hs htake hlast =>
      have h₁ := HandedOn.shortCircuit (d := d) ho hst s'
      obtain ⟨cut,ht⟩ := hon h₁ rfl
      exact ⟨true || cut,.cons hst hf hp hs h₁ (fun _ => ⟨htake,hlast⟩) ht⟩
    | absorb s' hs => exact ⟨false,.kept hf hs⟩
    | push fn hop => exact ⟨false,.pushed hop hst hf⟩
    | full status message hop hfull =>
      refine ⟨false,.fail fun hroom => ?_⟩
      simp only [flatMaps, List.countP_cons, hop, if_true] at hroom
      omega
    | refuse status message hs =>
      refine ⟨false,.fail fun _ xs hx => hs xs ?_⟩
      have := hx.2
      simp only [inlineOut_no_ops] at this
      exact this.1

theorem travel_from (ops : List (Inline α)) (v : α)
    (hf : ∀ f ∈ d.frames, f.position < k) (hopen : OpenFrom g d k) :
    ∃ cut, Travel g d k ops (g.path.stages.drop k) v (d.processFrom g k ops v).1
      (d.processFrom g k ops v).2 cut :=
  travel_inline (fun _ => travel_path ho hrel rfl hf hopen) rfl

end Path

end GraphState

end Salts.CFlow
