import Salts.CFlowEval
import Salts.CFlowPlan

/-!
The plan of a path against the interpreter of the path.  The plan runs one operator over the whole
vector, the interpreter one value through the whole path; both are compared with the list meaning.
A callable with state of its own can tell the two orders apart.
-/

namespace Salts.CFlow

open NodeAction (failed passed)
open Inline

variable {α ρ μ : Type}

def Gives {β : Type} (r : Option β) (ok : Prop) (out : β) : Prop :=
  (ok → r = some out) ∧ (¬ok → r = none)

namespace Gives

variable {β γ : Type} {r : Option β} {ok ok' : Prop} {out : β} {f : β → Option γ} {out' : γ}

theorem intro (h : ok ∧ r = some out ∨ ¬ok ∧ r = none) : Gives r ok out := by
  rcases h with ⟨hok,hr⟩ | ⟨hok,hr⟩
  · exact ⟨fun _ => hr,fun hne => absurd hok hne⟩
  · exact ⟨fun hp => absurd hp hok,fun _ => hr⟩

theorem bind (h : Gives r ok out) (h' : Gives (f out) ok' out') : Gives (r.bind f) (ok ∧ ok') out' := by
  by_cases hok : ok
  · rw [h.1 hok]
    exact ⟨fun hp => h'.1 hp.2,fun hne => h'.2 fun hp => hne ⟨hok,hp⟩⟩
  · rw [h.2 hok]
    exact ⟨fun hp => absurd hp.1 hok,fun _ => rfl⟩

theorem map (h : Gives r ok out) (g : β → γ) : Gives (r.map g) ok (g out) :=
  ⟨fun hp => by rw [h.1 hp, Option.map_some],fun hp => by rw [h.2 hp, Option.map_none]⟩

theorem congr (h : Gives r ok out) (hok : ok ↔ ok') : Gives r ok' out :=
  ⟨fun hp => h.1 (hok.2 hp),fun hp => h.2 fun hq => hp (hok.1 hq)⟩

end Gives

section Steps

def Inline.called : Inline α → Bool
  | .filter _ => true
  | .map chain => !chain.isEmpty
  | .transform chain => !chain.isEmpty

def Path.Called (p : Path α ρ) : Prop :=
  (∀ op ∈ p.lead, op.called = true) ∧ ∀ st ∈ p.stages, ∀ op ∈ st.after, op.called = true

instance (p : Path α ρ) : Decidable p.Called := inferInstanceAs (Decidable (_ ∧ _))

theorem runInline_singleton (op : Inline α) (v : α) : runInline [op] v = op.handle v := by
  cases h : op.handle v <;> simp [runInline, h]

section

variable (op : Inline α) (ops : List (Inline α))

theorem runInline_cons (v : α) :
    (runInline (op :: ops) v).passed = (op.handle v).passed.bind fun w => (runInline ops w).passed := by
  cases h : op.handle v <;> simp [runInline, h, passed]

theorem inlineOut_operator (xs : List α) :
    inlineOut (op :: ops) xs = inlineOut ops (inlineOut [op] xs) := by
  simp only [inlineOut, List.filterMap_filterMap]
  congr 1
  funext v
  rw [runInline_cons, runInline_singleton]

theorem inlineSucceeds_operator (xs : List α) :
    InlineSucceeds (op :: ops) xs ↔ InlineSucceeds [op] xs ∧ InlineSucceeds ops (inlineOut [op] xs) := by
  induction xs with
  | nil => simp
  | cons v xs ih =>
    rw [inlineSucceeds_cons, inlineSucceeds_cons, inlineOut_cons, inlineSucceeds_append, ih]
    cases h : op.handle v with
    | cont w =>
      simp only [runInline, h, passed, Option.toList_some, inlineSucceeds_cons]
      tauto
    | stop => simp [runInline, h, failed, passed]
    | fail status message => simp [runInline, h, failed]

end

theorem stepFilter_gives (call : Callable α Bool) (xs : List α) :
    Gives (stepFilter call xs) (InlineSucceeds [.filter call] xs) (inlineOut [.filter call] xs) := by
  induction xs with
  | nil => exact .intro (.inl ⟨inlineSucceeds_nil,rfl⟩)
  | cons v xs ih =>
    rw [stepFilter, inlineSucceeds_cons, inlineOut_cons, runInline_singleton]
    cases h : call.invoke v with
    | none =>
      refine .intro (.inr ⟨?_,rfl⟩)
      simp [handle, semanticFilter, h, failed]
    | some keep =>
      have hmap := ih.map fun out => if keep then v :: out else out
      cases keep with
      | true =>
        simp only [handle, semanticFilter, h, failed, true_and]
        exact hmap
      | false =>
        simp only [handle, semanticFilter, h, failed, true_and]
        exact hmap

theorem mapValues_gives (call : Callable α α) (xs : List α) :
    Gives (mapValues call xs) (InlineSucceeds [.map [call]] xs) (inlineOut [.map [call]] xs) := by
  induction xs with
  | nil => exact .intro (.inl ⟨inlineSucceeds_nil,rfl⟩)
  | cons v xs ih =>
    rw [mapValues, inlineSucceeds_cons, inlineOut_cons, runInline_singleton]
    cases h : call.invoke v with
    | none =>
      refine .intro (.inr ⟨?_,rfl⟩)
      simp [handle, semanticMap, invokeChain, h, failed]
    | some w =>
      simp only [handle, semanticMap, invokeChain, h, failed, true_and, Option.bind_some]
      exact ih.map fun out => w :: out

theorem handle_map_cons (call : Callable α α) (chain : List (Callable α α)) (v : α) :
    (map (call :: chain)).handle v = runInline [.map [call], .map chain] v := by
  cases h : call.invoke v with
  | none => simp [runInline, handle, semanticMap, invokeChain, h]
  | some w =>
    have hfst : (map [call]).handle v = .cont w := by
      simp [handle, semanticMap, invokeChain, h]
    have hsnd : runInline [.map [call], .map chain] v = runInline [.map chain] w := by
      rw [runInline, hfst]
    rw [hsnd, runInline_singleton]
    simp [handle, semanticMap, invokeChain, h]

theorem mapChain_gives (chain : List (Callable α α)) (xs : List α) :
    Gives (mapChain chain xs) (InlineSucceeds [.map chain] xs) (inlineOut [.map chain] xs) := by
  induction chain generalizing xs with
  | nil =>
    have hpass : ∀ v : α, runInline [.map []] v = .cont v := fun v => runInline_singleton _ _
    refine .intro (.inl ⟨fun v _ => by rw [hpass]; rfl,?_⟩)
    simp [mapChain, inlineOut, hpass, passed]
  | cons call chain ih =>
    have heq : runInline [.map (call :: chain)] = runInline [.map [call], .map chain] := by
      funext v
      rw [runInline_singleton, handle_map_cons]
    have hout : inlineOut [.map (call :: chain)] xs = inlineOut [.map [call], .map chain] xs := by
      simp [inlineOut, heq]
    have hok : InlineSucceeds [.map (call :: chain)] xs ↔
        InlineSucceeds [.map [call], .map chain] xs := by
      simp [InlineSucceeds, heq]
    rw [hout, hok, inlineOut_operator, inlineSucceeds_operator]
    exact (mapValues_gives call xs).bind (ih _)

theorem generateAll_gives (ending : GenEnd) (vs : List α) :
    Gives (generateAll ending vs) (ending ≠ .error) vs := by
  induction vs with
  | nil =>
    by_cases h : ending = .error
    · exact .intro (.inr ⟨by simpa using h,by simp [generateAll, h]⟩)
    · exact .intro (.inl ⟨h,by simp [generateAll, h]⟩)
  | cons v vs ih =>
    rw [generateAll]
    split
    · rename_i hlast
      refine .intro (.inl ⟨by rw [hlast.2]; decide,?_⟩)
      rw [List.isEmpty_iff.1 hlast.1]
    · exact ih.map fun out => v :: out

theorem stepFlatMap_gives (call : Callable α (Generation α)) (xs : List α) :
    Gives (stepFlatMap call xs) (∀ x ∈ xs, (call.generate x).ending ≠ .error)
      (xs.flatMap fun x => (call.generate x).values) := by
  induction xs with
  | nil => exact .intro (.inl ⟨nofun,rfl⟩)
  | cons v xs ih =>
    have hgen := generateAll_gives (call.generate v).ending (call.generate v).values
    refine (hgen.bind (ih.map fun rest => (call.generate v).values ++ rest)).congr ?_
    simp

theorem reduceLoop_gives (call : Callable (α × α) α) (a : α) (xs : List α) :
    Gives ((reduceLoop call a xs).map fun b => [b]) (ReduceSucceeds call (some a) xs)
      (reduceFrom call (some a) xs).toList := by
  induction xs generalizing a with
  | nil => exact .intro (.inl ⟨trivial,rfl⟩)
  | cons v xs ih =>
    rw [reduceLoop, ReduceSucceeds, reduceFrom]
    cases h : call.invoke (a,v) with
    | none => exact .intro (.inr ⟨by simp,rfl⟩)
    | some b =>
      exact (ih b).congr (by simp)

theorem stepReduce_gives (call : Callable (α × α) α) (seed : Option α) (xs : List α) :
    Gives (stepReduce call seed xs) (ReduceSucceeds call seed xs) (reduceFrom call seed xs).toList := by
  cases seed with
  | some a => exact reduceLoop_gives call a xs
  | none =>
    cases xs with
    | nil => exact .intro (.inl ⟨trivial,rfl⟩)
    | cons v xs => exact reduceLoop_gives call v xs

end Steps

variable {op : Inline α} {n : PathNode α ρ} {nodes : List (PathNode α ρ)} {p : Path α ρ}

section Code

variable {inst : PlanInst α}

theorem inline_gives (hc : op.called = true)
    (hi : (PathNode.inline op : PathNode α ρ).instruction = some inst) (xs : List α) :
    Gives (inst.step xs) (InlineSucceeds [op] xs) (inlineOut [op] xs) := by
  cases op with
  | filter fn =>
    cases hi
    exact stepFilter_gives fn xs
  | map chain =>
    cases hi
    have hne : chain.isEmpty = false := by simpa [called] using hc
    simp only [PlanInst.step, stepMap, hne]
    exact mapChain_gives chain xs
  | transform chain =>
    cases hi
    have hne : chain.isEmpty = false := by simpa [called] using hc
    simp only [PlanInst.step, stepMap, hne]
    exact mapChain_gives chain xs

variable {o : EvalOptions α} {code : List (PlanInst α)}

theorem stage_gives {op : StageOp α ρ}
    (hi : (PathNode.stage op : PathNode α ρ).instruction = some inst) (xs : List α) :
    Gives (inst.step xs) (op.Succeeds o xs) (op.denote o xs) := by
  cases op with
  | take limit =>
    cases hi
    exact .intro (.inl ⟨trivial,rfl⟩)
  | skip count =>
    cases hi
    exact .intro (.inl ⟨trivial,rfl⟩)
  | reduce fn seed =>
    cases hi
    exact stepReduce_gives fn seed xs
  | flatMap fn =>
    cases hi
    exact stepFlatMap_gives fn xs
  | distinct _ => cases hi
  | sorted _ => cases hi
  | relation _ => cases hi

theorem compileNodes_cons (h : compileNodes (n :: nodes) = some code) :
    ∃ inst rest, n.instruction = some inst ∧ compileNodes nodes = some rest ∧ code = inst :: rest := by
  obtain ⟨inst,hi,h⟩ := Option.bind_eq_some_iff.1 h
  obtain ⟨rest,hr,rfl⟩ := Option.map_eq_some_iff.1 h
  exact ⟨inst,rest,hi,hr,rfl⟩

theorem compileNodes_append {xs ys : List (PathNode α ρ)}
    (h : compileNodes (xs ++ ys) = some code) :
    ∃ c₁ c₂, compileNodes xs = some c₁ ∧ compileNodes ys = some c₂ ∧ code = c₁ ++ c₂ := by
  induction xs generalizing code with
  | nil => exact ⟨[],code,rfl,h,rfl⟩
  | cons n xs ih =>
    obtain ⟨inst,rest,hi,hr,rfl⟩ := compileNodes_cons h
    obtain ⟨c₁,c₂,h₁,h₂,rfl⟩ := ih hr
    exact ⟨inst :: c₁,c₂,by simp [compileNodes, hi, h₁],h₂,rfl⟩

theorem inlines_give {ops : List (Inline α)} (hc : ∀ op ∈ ops, op.called = true)
    (h : compileNodes (ops.map (PathNode.inline (ρ := ρ))) = some code) (xs : List α) :
    Gives (evalCode code xs) (InlineSucceeds ops xs) (inlineOut ops xs) := by
  induction ops generalizing code xs with
  | nil =>
    cases h
    rw [inlineOut_no_ops]
    exact .intro (.inl ⟨inlineSucceeds_no_ops,rfl⟩)
  | cons op ops ih =>
    obtain ⟨inst,rest,hi,hr,rfl⟩ := compileNodes_cons h
    rw [inlineOut_operator, inlineSucceeds_operator]
    exact (inline_gives (hc op (.head _ ..)) hi xs).bind
      (ih (fun x hx => hc x (.tail _ hx)) hr _)

theorem stages_give {stages : List (Stage α ρ)}
    (hc : ∀ st ∈ stages, ∀ op ∈ st.after, op.called = true)
    (h : compileNodes (stages.flatMap fun st => .stage st.op :: st.after.map .inline) = some code)
    (xs : List α) :
    Gives (evalCode code xs) (SucceedsStages o stages xs) (denoteStages o stages xs) := by
  induction stages generalizing code xs with
  | nil =>
    cases h
    exact .intro (.inl ⟨trivial,rfl⟩)
  | cons st stages ih =>
    obtain ⟨c₁,c₂,h₁,h₂,rfl⟩ := compileNodes_append h
    obtain ⟨inst,rest,hi,hr,rfl⟩ := compileNodes_cons h₁
    rw [evalCode_append, evalCode, Option.bind_assoc]
    exact (stage_gives hi xs).bind
      ((inlines_give (hc st (.head _ ..)) hr _).bind (ih (fun x hx => hc x (.tail _ hx)) h₂ _))

theorem evalCode_gives (hc : p.Called) (h : compileNodes p.nodes = some code) (xs : List α) :
    Gives (evalCode code xs) (p.Succeeds o xs) (p.denote o xs) := by
  obtain ⟨c₁,c₂,h₁,h₂,rfl⟩ := compileNodes_append h
  rw [evalCode_append]
  exact (inlines_give hc.1 h₁ xs).bind (stages_give hc.2 h₂ _)

end Code

section Fused

variable {code : List (PlanInst α)}

theorem evalFusedFilters_eq (h : ∀ i ∈ code, i.isFusibleFilter = true)
    (xs : List α) : evalFusedFilters code xs = evalCode code xs := by
  induction code generalizing xs with
  | nil => rfl
  | cons inst code ih =>
    have hi := h inst (.head _ ..)
    cases inst with
    | filter call =>
      exact Option.bind_congr fun ys _ => ih (fun i hi => h i (.tail _ hi)) ys
    | _ => cases hi

theorem evalFusedMaps_eq (h : ∀ i ∈ code, i.isFusibleMap = true)
    (xs : List α) : evalFusedMaps code xs = evalCode code xs := by
  induction code generalizing xs with
  | nil => rfl
  | cons inst code ih =>
    have hi := h inst (.head _ ..)
    cases inst with
    | map chain =>
      have hne : chain.isEmpty = false := by
        simp only [PlanInst.isFusibleMap, Bool.and_eq_true, Bool.not_eq_true'] at hi
        exact hi.1
      simp only [evalCode, PlanInst.step, stepMap, hne]
      exact Option.bind_congr fun ys _ => ih (fun i hi => h i (.tail _ hi)) ys
    | _ => cases hi

theorem evalCode_fusible_nil (h : ∀ i ∈ code, i.isFusibleFilter = true ∨ i.isFusibleMap = true) :
    evalCode code [] = some [] := by
  induction code with
  | nil => rfl
  | cons inst code ih =>
    have hstep : inst.step [] = some [] := by
      cases inst with
      | filter call => rfl
      | map chain =>
        have hne : chain.isEmpty = false := by
          rcases h _ (.head _ ..) with hi | hi
          · cases hi
          · simp only [PlanInst.isFusibleMap, Bool.and_eq_true, Bool.not_eq_true'] at hi
            exact hi.1
        have hchain : ∀ chain : List (Callable α α), mapChain chain [] = some [] := by
          intro chain
          induction chain with
          | nil => rfl
          | cons call chain ih => exact ih
        simp [PlanInst.step, stepMap, hne, hchain]
      | _ => rcases h _ (.head _ ..) with hi | hi <;> cases hi
    rw [evalCode, hstep]
    exact ih fun i hi => h i (.tail _ hi)

theorem evalArray_eq_evalCode {managed : Bool} {impl : PlanImpl α}
    (h : p.compile managed = .ok impl) (xs : List α) : impl.evalArray xs = evalCode impl.code xs := by
  obtain ⟨-,-,impl₀,hfused,-,himpl⟩ := Path.compile_ok h
  unfold PlanImpl.evalArray
  split
  · rename_i hf
    obtain ⟨hfilters,hmaps⟩ :
        (∀ i ∈ impl.code.take impl.fusedFilterCount, i.isFusibleFilter = true) ∧
          ∀ i ∈ impl.code.drop impl.fusedFilterCount, i.isFusibleMap = true := by
      rw [himpl] at hf ⊢
      simpa using PlanImpl.prepareFusedValue_fused (by simpa using hfused) hf
    have hcode := List.take_append_drop impl.fusedFilterCount impl.code
    unfold PlanImpl.evalFusedValue
    split
    · -- no input: the fused loop is not entered
      rename_i hnil
      rw [List.isEmpty_iff.1 hnil, evalCode_fusible_nil]
      intro i hi
      rw [← hcode] at hi
      exact (List.mem_append.1 hi).imp (hfilters i) (hmaps i)
    · rw [evalFusedFilters_eq hfilters]
      conv_rhs => rw [← hcode, evalCode_append]
      exact Option.bind_congr fun ys _ => evalFusedMaps_eq hmaps ys
  · rw [PlanImpl.evalPrefixMaterialized_of_le (Nat.le_refl _), List.take_length]

end Fused

section Compiled

variable {p : Path α ρ} {managed : Bool} {impl : PlanImpl α}

theorem instruction_of_compiled {code : List (PlanInst α)} (h : compileNodes nodes = some code)
    (hn : n ∈ nodes) : n.instruction.isSome = true := by
  induction nodes generalizing code with
  | nil => cases hn
  | cons m nodes ih =>
    obtain ⟨inst,rest,hi,hr,rfl⟩ := compileNodes_cons h
    rcases List.mem_cons.1 hn with rfl | hn
    · rw [hi]
      rfl
    · exact ih hr hn

variable {st : Stage α ρ}

theorem mem_nodes_stage (h : st ∈ p.stages) : PathNode.stage st.op ∈ p.nodes :=
  List.mem_append.2 (.inr (List.mem_flatMap.2 ⟨st,h,.head _ ..⟩))

theorem mem_nodes_after (h : st ∈ p.stages) (ho : op ∈ st.after) : PathNode.inline op ∈ p.nodes :=
  List.mem_append.2 (.inr (List.mem_flatMap.2 ⟨st,h,.tail _ (List.mem_map.2 ⟨op,ho,rfl⟩)⟩))

theorem supported_of_compiled (h : p.compile managed = .ok impl) (hst : st ∈ p.stages) :
    st.op.isRelation = false ∧ (st.op.isTake = false → st.op.strict = true) := by
  obtain ⟨-,hcode,-⟩ := Path.compile_ok h
  have hinst := instruction_of_compiled hcode (mem_nodes_stage hst)
  cases hop : st.op <;>
    simp [hop, PathNode.instruction, StageOp.isRelation, StageOp.isTake, StageOp.strict] at hinst ⊢

theorem succeeds_of_slices {o : EvalOptions α} (h : ∀ n ∈ p.nodes, n.isSlice = true) (xs : List α) :
    p.Succeeds o xs := by
  have hlead : p.lead = [] := by
    refine List.eq_nil_iff_forall_not_mem.2 fun op hop => ?_
    have := h (.inline op) (List.mem_append.2 (.inl (List.mem_map.2 ⟨op,hop,rfl⟩)))
    cases this
  have hstages : ∀ stages : List (Stage α ρ), (∀ st ∈ stages, st ∈ p.stages) → ∀ ys,
      SucceedsStages o stages ys := by
    intro stages hsub
    induction stages with
    | nil => exact fun _ => trivial
    | cons st stages ih =>
      intro ys
      have hst := hsub st (.head _ ..)
      have hafter : st.after = [] := by
        refine List.eq_nil_iff_forall_not_mem.2 fun op hop => ?_
        have := h _ (mem_nodes_after hst hop)
        cases this
      have hop : st.op.Succeeds o ys := by
        have hs := h _ (mem_nodes_stage hst)
        cases hop : st.op <;> rw [hop] at hs <;> trivial
      refine ⟨hop,?_,ih (fun x hx => hsub x (.tail _ hx)) _⟩
      rw [hafter]
      exact inlineSucceeds_no_ops
  refine ⟨?_,hstages p.stages (fun _ hx => hx) _⟩
  rw [hlead]
  exact inlineSucceeds_no_ops

theorem strict_or_succeeds (h : p.compile managed = .ok impl) (o : EvalOptions α) :
    (∀ st ∈ p.stages, st.op.strict = true) ∨ ∀ xs, p.Succeeds o xs := by
  obtain ⟨hmix,-,-⟩ := Path.compile_ok h
  by_cases htake : ∃ st ∈ p.stages, st.op.isTake = true
  · obtain ⟨st,hst,ht⟩ := htake
    refine .inr (succeeds_of_slices fun n hn => ?_)
    have hslice : p.nodes.any PathNode.isSlice = true := by
      refine List.any_eq_true.2 ⟨_,mem_nodes_stage hst,?_⟩
      cases hop : st.op <;> simp [hop, StageOp.isTake, PathNode.isSlice] at ht ⊢
    simp only [Path.mixesSlicesAndCallables, hslice, Bool.true_and, List.any_eq_false,
      Bool.not_eq_true', Bool.not_eq_false] at hmix
    exact hmix n hn
  · refine .inl fun st hst => (supported_of_compiled h hst).2 ?_
    by_contra hne
    exact htake ⟨st,hst,by simpa using hne⟩

theorem Path.read_of_strict (h : ∀ st ∈ p.stages, st.op.strict = true) (xs : List α) :
    p.read xs = xs := by
  have hany : (p.stages.any fun st => st.op.takesNothing) = false := by
    refine List.any_eq_false.2 fun st hst => ?_
    have := h st hst
    cases hop : st.op <;> simp [hop, StageOp.strict, StageOp.takesNothing] at this ⊢
  rw [Path.read, hany]
  rfl

end Compiled

def PlanAgrees (result : Option (List α)) : List α × EvalEnd → Prop
  | (vs, .done) => result = some vs
  | (_, .error _) => result = none
  | (_, .stalled) => False

/-- The plan of a path against its interpreter.  The nodes are numbered along the path as
`cflow_graph_normalize` numbers them, the compiler accepts the path, its values are trivially stored,
and there are at most 64 FLAT_MAPs.  Then the interpreter comes to an end; when it is done the plan
returns the values it delivered, and when it reports an error the plan fails. -/
theorem plan_eq_interpreter {p : Path α ρ} {impl : PlanImpl α} (o : EvalOptions α)
    (R : RelationOps α ρ μ) (xs : List α) (ho : p.Ordered) (hcalled : p.Called)
    (hflat : flatMaps p.stages ≤ maxContinuations) (hc : p.compile false = .ok impl)
    (hlen : (p.denote o xs).length < sizeMax) :
    ∃ n e, evalArray p o R n xs = some e ∧ PlanAgrees (impl.evalArray xs) e := by
  have hplan : Gives (impl.evalArray xs) (p.Succeeds o xs) (p.denote o xs) := by
    rw [evalArray_eq_evalCode hc]
    exact evalCode_gives hcalled (Path.compile_ok hc).2.1 xs
  have hread : p.Succeeds o (p.read xs) ↔ p.Succeeds o xs := by
    rcases strict_or_succeeds hc o with h | h
    · rw [Path.read_of_strict h]
    · exact iff_of_true (h _) (h _)
  obtain ⟨n,⟨vs,e⟩,hn,he⟩ := evalArray_ends ho
    (fun st hst => (supported_of_compiled hc hst).1) hlen
  refine ⟨n,(vs,e),hn,?_⟩
  cases e with
  | done =>
    obtain ⟨hvs,hstrict⟩ := he
    have hsucc : p.Succeeds o xs := by
      rcases strict_or_succeeds hc o with h | h
      · exact hread.1 (hstrict h)
      · exact h xs
    rw [hvs]
    exact hplan.1 hsucc
  | error message => exact hplan.2 fun hs => he hflat (hread.2 hs)
  | stalled => exact he

section Stateful

variable {σ : Type}

abbrev StateCallable (σ α : Type) : Type := α → StateT σ Option α

/-- The MAP instructions of a plan with such callables: each passes over the whole vector. -/
def stepMaps (calls : List (StateCallable σ α)) (vs : List α) : StateT σ Option (List α) :=
  calls.foldlM (fun vs call => vs.mapM call) vs

/-- `process_path` over MAP nodes with such callables: each value passes all the nodes. -/
def processPaths (calls : List (StateCallable σ α)) (vs : List α) : StateT σ Option (List α) :=
  vs.mapM fun v => calls.foldlM (fun v call => call v) v

def Callable.stateless (σ : Type) (call : Callable α α) : StateCallable σ α :=
  fun v => liftM (call.invoke v)

theorem mapM_liftM {β : Type} (f : α → Option β) (vs : List α) :
    (vs.mapM fun v => (liftM (f v) : StateT σ Option β)) = liftM (vs.mapM f) := by
  induction vs with
  | nil => rfl
  | cons v vs ih => simp only [List.mapM_cons, ih, liftM_bind, liftM_pure]

theorem mapM_invoke (call : Callable α α) (vs : List α) :
    vs.mapM call.invoke = mapValues call vs := by
  induction vs with
  | nil => rfl
  | cons v vs ih =>
    rw [List.mapM_cons, ih, mapValues]
    cases call.invoke v <;> cases mapValues call vs <;> rfl

/-- With callables whose results depend on the argument alone, these are the instructions above. -/
theorem stepMaps_stateless (chain : List (Callable α α)) (vs : List α) :
    stepMaps (chain.map (Callable.stateless σ)) vs = liftM (mapChain chain vs) := by
  induction chain generalizing vs with
  | nil => rfl
  | cons call chain ih =>
    have hmap : vs.mapM (call.stateless σ) = liftM (mapValues call vs) := by
      rw [← mapM_invoke]
      exact mapM_liftM _ _
    simp only [stepMaps] at ih
    simp only [stepMaps, List.map_cons, List.foldlM_cons, hmap, ih, ← liftM_bind]
    rfl

theorem processPaths_stateless (chain : List (Callable α α)) (vs : List α) :
    processPaths (chain.map (Callable.stateless σ)) vs = liftM (vs.mapM (invokeChain chain)) := by
  have hchain : ∀ v, (chain.map (Callable.stateless σ)).foldlM (fun v call => call v) v =
      (liftM (invokeChain chain v) : StateT σ Option α) := by
    induction chain with
    | nil => exact fun _ => rfl
    | cons call chain ih =>
      intro v
      simp only [List.map_cons, List.foldlM_cons, ih, Callable.stateless, ← liftM_bind]
      rfl
  simp only [processPaths, hchain]
  exact mapM_liftM _ _

end Stateful

section Witnesses

def numbers : EvalOptions Nat where
  same := (· == ·)
  le a b := decide (a ≤ b)

def sumsPairs : Path Nat Unit where
  stages :=
    [{ id := 1, op := .flatMap { invoke := fun x => some { values := [x, x + 1] } } },
      { id := 2, op := .reduce { invoke := fun x => some (x.1 + x.2) } none }]

theorem sumsPairs_plan_eq_interpreter :
    ∃ impl, sumsPairs.compile false = .ok impl ∧
      ∃ n e, evalArray sumsPairs numbers noRelations n [3, 5] = some e ∧
        PlanAgrees (impl.evalArray [3, 5]) e :=
  ⟨_,rfl,plan_eq_interpreter numbers noRelations [3, 5] (by decide) (by decide)
    (by decide) rfl (by decide)⟩

def doublesFirst : Path Nat Unit where
  stages := [{ id := 1, op := .take 1, after := [.map [{ invoke := fun x => some (2 * x) }]] }]

def countsCalls : StateCallable Nat Nat := fun x calls => some (x + calls, calls + 1)

/-- TAKE and MAP are both supported by the plan compiler, which refuses them on one path; the
interpreter evaluates it.  On a path of two MAPs that share a counting callable, which the compiler
accepts, the plan and the interpreter make the calls in different orders. -/
theorem mixed_or_counting_path_differs :
    (doublesFirst.compile false = .error "Graph mixes slice and callable plan semantics" ∧
      evalArray doublesFirst numbers noRelations 9 [4, 7] = some ([8], .done)) ∧
    (stepMaps [countsCalls, countsCalls] [0, 0]).run 0 = some ([2, 4], 4) ∧
      (processPaths [countsCalls, countsCalls] [0, 0]).run 0 = some ([1, 5], 4) := by
  refine ⟨⟨rfl,?_⟩,by decide,by decide⟩
  decide +kernel

end Witnesses

end Salts.CFlow
