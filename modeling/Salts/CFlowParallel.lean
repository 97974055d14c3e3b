import Salts.AssocFold
import Salts.CFlowPlan
import Salts.ThreadPool

/-!
Ordered parallel reduction (`plan_parallel_reduce.c`).  The evaluator splits the values in front of
the terminal REDUCE into chunks, posts a task for each, waits for the accepted ones and merges the
partial results in the order of the chunks.  Tasks run, are cancelled and settle in any order.
-/

namespace Salts.CFlow

open ThreadPool

variable {α ρ : Type}

/-- `cflow_plan_eval_options`, with what the executor answers: it has
`CMETA_EXEC_CAP_CONCURRENT`, and the caller is one of its own workers. -/
structure PlanEvalOptions where
  maxTasks : Nat
  minItemsPerTask : Nat
  concurrent : Bool := true
  isCurrent : Bool := false

def parallelTaskCount (itemCount : Nat) (o : PlanEvalOptions) : Nat :=
  if o.maxTasks = 0 ∨ o.minItemsPerTask = 0 then 0
  else
    let desired :=
      itemCount / o.minItemsPerTask + if itemCount % o.minItemsPerTask = 0 then 0 else 1
    if desired < o.maxTasks then desired else o.maxTasks

/-- `cflow_parallel_reduce_frame`.  `partials` holds what the tasks have written, `accepted` is the
count of the evaluator, and the last two fields record what the executor did. -/
structure ReduceFrame (α : Type) where
  reducer : Callable (α × α) α
  values : List α
  taskCount : Nat
  partials : Nat → Option α := fun _ => none
  accepted : Nat := 0
  completed : Nat := 0
  failed : Bool := false
  refused : Bool := false
  cancelled : Bool := false

inductive ReducePoint (α : Type) where
  | posting (index start : Nat)
  | waiting (admissionFailed : Bool)
  | returned (result : Option α)
  | task (index start count : Nat) (cancellable : Bool)
  | settling (succeeded : Bool)
  | settled
  deriving DecidableEq

/-- What happens next: the evaluator goes on, the executor accepts a task with or without its cancel
callback or refuses it, runs or cancels one. -/
inductive ReduceChoice where
  | go
  | accept (cancellable : Bool)
  | refuse
  | run
  | cancel

namespace ReduceFrame

def chunkCount (f : ReduceFrame α) (index : Nat) : Nat :=
  f.values.length / f.taskCount + if index < f.values.length % f.taskCount then 1 else 0

/-- The loop of `parallel_reduce_task_run` with the accumulator it leaves. -/
def taskLoop (reducer : Callable (α × α) α) : α → List α → α × Bool
  | a, [] => (a, true)
  | a, v :: vs =>
    match reducer.invoke (a, v) with
    | some b => taskLoop reducer b vs
    | none => (a, false)

/-- `parallel_reduce_task_run`: what it writes to its partial, and whether it succeeded. -/
def taskRun (f : ReduceFrame α) (start count : Nat) : Option α × Bool :=
  match (f.values.drop start).take count with
  | [] => (none, false)
  | v :: vs => (some (taskLoop f.reducer v vs).1, (taskLoop f.reducer v vs).2)

/-- The loop of `merge_partials`. -/
def mergeLoop (f : ReduceFrame α) : α → List Nat → Option α
  | a, [] => some a
  | a, index :: rest =>
    (f.partials index).bind fun v => (f.reducer.invoke (a, v)).bind fun b => mergeLoop f b rest

def mergePartials (f : ReduceFrame α) : Option α :=
  (f.partials 0).bind fun a => f.mergeLoop a (List.range' 1 (f.taskCount - 1))

/-- `wait_for_accepted` and the test behind it. -/
def mayMerge (f : ReduceFrame α) (admissionFailed : Bool) : Bool :=
  !f.failed && !admissionFailed && f.accepted == f.taskCount

def move (f : ReduceFrame α) (p : ReducePoint α) (c : ReduceChoice) :
    Option (ReduceFrame α × ReducePoint α × List (ReducePoint α)) :=
  match p, c with
  | .posting index start, .accept cancellable =>
    if index < f.taskCount then
      some ({ f with accepted := f.accepted + 1 },
        .posting (index + 1) (start + f.chunkCount index),
        [.task index start (f.chunkCount index) cancellable])
    else none
  | .posting index _, .refuse =>
    if index < f.taskCount then some ({ f with refused := true }, .waiting true, []) else none
  | .posting index _, .go => if index < f.taskCount then none else some (f, .waiting false, [])
  | .waiting admissionFailed, .go =>
    if f.completed < f.accepted then none
    else some (f, .returned (if f.mayMerge admissionFailed then f.mergePartials else none), [])
  | .task index start count _, .run =>
    some ({ f with partials := Function.update f.partials index (f.taskRun start count).1 },
      .settling (f.taskRun start count).2, [])
  | .task _ _ _ true, .cancel => some ({ f with cancelled := true }, .settling false, [])
  | .settling succeeded, .go =>
    some ({ f with completed := f.completed + 1, failed := f.failed || !succeeded }, .settled, [])
  | _, _ => none

end ReduceFrame

abbrev ReduceSystem (α : Type) := Config (ReduceFrame α) (ReducePoint α)

def reduceStep : ReduceSystem α → Act (ReducePoint α) ReduceChoice → Option (ReduceSystem α) :=
  step ReduceFrame.move fun _ => false

/-- What `eval_parallel_reduce` checks and prepares before it posts its first task; without a frame
it reports failure. -/
def PlanImpl.parallelReduceFrame (impl : PlanImpl α) (inputs : List α) (o : PlanEvalOptions) :
    Option (ReduceFrame α) :=
  if o.maxTasks = 0 ∨ o.minItemsPerTask = 0 ∨ impl.parallelReduceSupported = false ∨
      o.concurrent = false ∨ o.isCurrent = true then none
  else
    match impl.code.getLast?, impl.evalPrefixMaterialized (impl.code.length - 1) inputs with
    | some (.reduce call _), some values =>
      let taskCount := parallelTaskCount values.length o
      if taskCount < 2 ∨ values.length < taskCount then none
      else some { reducer := call, values := values, taskCount := taskCount }
    | _, _ => none

def Posting (f : ReduceFrame α) (s : ReduceSystem α) : Prop :=
  s = { shared := f, threads := [.posting 0 0] }

inductive ReduceMove (f : ReduceFrame α) :
    ReducePoint α → ReduceFrame α → ReducePoint α → List (ReducePoint α) → Prop
  | accept (index start : Nat) (cancellable : Bool) (h : index < f.taskCount) :
      ReduceMove f (.posting index start) { f with accepted := f.accepted + 1 }
        (.posting (index + 1) (start + f.chunkCount index))
        [.task index start (f.chunkCount index) cancellable]
  | refuse (index start : Nat) (h : index < f.taskCount) :
      ReduceMove f (.posting index start) { f with refused := true } (.waiting true) []
  | allPosted (index start : Nat) (h : f.taskCount ≤ index) :
      ReduceMove f (.posting index start) f (.waiting false) []
  | merge (admissionFailed : Bool) (h : f.accepted ≤ f.completed) :
      ReduceMove f (.waiting admissionFailed) f
        (.returned (if f.mayMerge admissionFailed then f.mergePartials else none)) []
  | run (index start count : Nat) (cancellable : Bool) :
      ReduceMove f (.task index start count cancellable)
        { f with partials := Function.update f.partials index (f.taskRun start count).1 }
        (.settling (f.taskRun start count).2) []
  | cancel (index start count : Nat) :
      ReduceMove f (.task index start count true) { f with cancelled := true } (.settling false) []
  | settle (succeeded : Bool) :
      ReduceMove f (.settling succeeded)
        { f with completed := f.completed + 1, failed := f.failed || !succeeded } .settled []

theorem ReduceMove.of_move {f : ReduceFrame α} {p : ReducePoint α} {c : ReduceChoice}
    {m : ReduceFrame α × ReducePoint α × List (ReducePoint α)} (h : f.move p c = some m) :
    ReduceMove f p m.1 m.2.1 m.2.2 := by
  unfold ReduceFrame.move at h
  split at h
  case h_1 index start cancellable =>
    split at h
    · cases h; exact .accept index start cancellable ‹_›
    · cases h
  case h_2 index start =>
    split at h
    · cases h; exact .refuse index start ‹_›
    · cases h
  case h_3 index start =>
    split at h
    · cases h
    · cases h; exact .allPosted index start (Nat.le_of_not_lt ‹_›)
  case h_4 admissionFailed =>
    split at h
    · cases h
    · cases h; exact .merge admissionFailed (Nat.le_of_not_lt ‹_›)
  case h_5 index start count cancellable => cases h; exact .run index start count cancellable
  case h_6 index start count => cases h; exact .cancel index start count
  case h_7 succeeded => cases h; exact .settle succeeded
  case h_8 => cases h

/-! ### The chunks tile the values and their folds merge -/

open AssocFold

variable {α : Type}

namespace ReduceFrame

variable {f : ReduceFrame α}

def op (f : ReduceFrame α) (a b : α) : Option α := f.reducer.invoke (a, b)

def chunkStart (f : ReduceFrame α) (index : Nat) : Nat :=
  index * (f.values.length / f.taskCount) + min index (f.values.length % f.taskCount)

def chunk (f : ReduceFrame α) (index : Nat) : List α :=
  (f.values.drop (f.chunkStart index)).take (f.chunkCount index)

theorem chunkStart_succ (index : Nat) :
    f.chunkStart (index + 1) = f.chunkStart index + f.chunkCount index := by
  simp only [chunkStart, chunkCount, Nat.succ_mul]
  split <;> omega

theorem chunkStart_taskCount (hn : 0 < f.taskCount) : f.chunkStart f.taskCount = f.values.length := by
  have hmod : f.values.length % f.taskCount < f.taskCount := Nat.mod_lt _ hn
  rw [chunkStart, Nat.min_eq_right (Nat.le_of_lt hmod)]
  exact Nat.div_add_mod _ _

theorem chunks_flatten (k : Nat) :
    ((List.range k).map f.chunk).flatten = f.values.take (f.chunkStart k) := by
  induction k with
  | zero => simp [chunkStart]
  | succ k ih =>
    rw [List.range_succ, List.map_append, List.flatten_append, ih, chunkStart_succ, List.take_add]
    simp [chunk]

variable {index : Nat}

theorem chunk_ne_nil (hn : 0 < f.taskCount) (hle : f.taskCount ≤ f.values.length)
    (hi : index < f.taskCount) : f.chunk index ≠ [] := by
  have hbase := Nat.div_pos hle hn
  have hcount : 0 < f.chunkCount index := by
    simp only [chunkCount]
    omega
  have hstart : f.chunkStart index < f.values.length := by
    -- the starts grow up to the length of the values
    have hmono : f.chunkStart (index+1) ≤ f.chunkStart f.taskCount := by
      have hmul : (index+1) * (f.values.length / f.taskCount) ≤
          f.taskCount * (f.values.length / f.taskCount) := Nat.mul_le_mul_right _ hi
      simp only [chunkStart]
      omega
    rw [chunkStart_succ, chunkStart_taskCount hn] at hmono
    omega
  apply List.ne_nil_of_length_pos
  rw [chunk, List.length_take, List.length_drop]
  omega

theorem taskLoop_eq (a : α) (vs : List α) :
    foldFrom f.op a vs = if (taskLoop f.reducer a vs).2 then some (taskLoop f.reducer a vs).1 else none := by
  induction vs generalizing a with
  | nil => rfl
  | cons v vs ih =>
    cases h : f.reducer.invoke (a,v) with
    | none => simp [foldFrom, taskLoop, op, h]
    | some b => simp [foldFrom, taskLoop, op, h, ih b]

theorem taskRun_chunk (hn : 0 < f.taskCount) (hle : f.taskCount ≤ f.values.length)
    (hi : index < f.taskCount) :
    fold f.op (f.chunk index) =
      if (f.taskRun (f.chunkStart index) (f.chunkCount index)).2 then
        (f.taskRun (f.chunkStart index) (f.chunkCount index)).1 else none := by
  obtain ⟨v,vs,hc⟩ := List.exists_cons_of_ne_nil (chunk_ne_nil hn hle hi)
  have hslice : (f.values.drop (f.chunkStart index)).take (f.chunkCount index) = v :: vs := hc
  rw [hc, taskRun, hslice]
  exact taskLoop_eq v vs

theorem mergeLoop_eq (a : α) (indices : List Nat) :
    f.mergeLoop a indices = mergeFrom f.op a (indices.map f.partials) := by
  induction indices generalizing a with
  | nil => rfl
  | cons i indices ih =>
    exact Option.bind_congr fun v _ => Option.bind_congr fun b _ => ih b

section

variable (ha : Assoc f.op) (hn : 0 < f.taskCount) (hle : f.taskCount ≤ f.values.length)

include ha hn hle

theorem mergePartials_eq (hp : ∀ i < f.taskCount, f.partials i = fold f.op (f.chunk i)) :
    f.mergePartials = fold f.op f.values := by
  have hrange : List.range f.taskCount = 0 :: List.range' 1 (f.taskCount-1) := by
    obtain ⟨k,hk⟩ : ∃ k, f.taskCount = k + 1 := ⟨f.taskCount - 1,by omega⟩
    rw [hk, List.range_eq_range']
    rfl
  have hvalues : f.values = (f.chunk 0 :: (List.range' 1 (f.taskCount-1)).map f.chunk).flatten := by
    have h := chunks_flatten (f := f) f.taskCount
    rw [chunkStart_taskCount hn, List.take_length, hrange] at h
    exact h.symm
  have hmem : ∀ i ∈ List.range' 1 (f.taskCount-1), i < f.taskCount := by
    intro i hi
    have := List.mem_range'_1.1 hi
    omega
  have hmap : (List.range' 1 (f.taskCount-1)).map f.partials =
      ((List.range' 1 (f.taskCount-1)).map f.chunk).map (fold f.op) := by
    rw [List.map_map]
    exact List.map_congr_left fun i hi => hp i (hmem i hi)
  have hne : ∀ d ∈ (List.range' 1 (f.taskCount-1)).map f.chunk, d ≠ [] := by
    intro d hd
    obtain ⟨i,hi,rfl⟩ := List.mem_map.1 hd
    exact chunk_ne_nil hn hle (hmem i hi)
  calc f.mergePartials
      = (fold f.op (f.chunk 0)).bind fun a => mergeFrom f.op a
          (((List.range' 1 (f.taskCount-1)).map f.chunk).map (fold f.op)) := by
        rw [mergePartials, hp 0 hn]
        refine Option.bind_congr fun a _ => ?_
        rw [mergeLoop_eq, hmap]
    _ = fold f.op (f.chunk 0 :: (List.range' 1 (f.taskCount-1)).map f.chunk).flatten :=
        (fold_flatten ha _ _ (chunk_ne_nil hn hle hn) hne).symm
    _ = fold f.op f.values := by rw [← hvalues]

theorem fold_values_none (hi : index < f.taskCount) (hnone : fold f.op (f.chunk index) = none) :
    fold f.op f.values = none := by
  have h := chunks_flatten (f := f) f.taskCount
  rw [chunkStart_taskCount hn, List.take_length] at h
  rw [← h]
  refine fold_flatten_none ha ?_ (List.mem_map.2 ⟨index,List.mem_range.2 hi,rfl⟩) hnone
  intro d hd
  obtain ⟨i,hm,rfl⟩ := List.mem_map.1 hd
  exact chunk_ne_nil hn hle (List.mem_range.1 hm)

end

end ReduceFrame

end Salts.CFlow
