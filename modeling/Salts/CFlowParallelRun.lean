import Salts.CFlowParallel

/-!
The invariant of a parallel reduction: what each thread knows at its point, and that every accepted
task still has to run, has left the fold of its chunk, or is lost.
-/

namespace Salts.CFlow

open ThreadPool Transition AssocFold
open ReduceFrame
open PlanImpl
open ReducePoint

variable {α : Type}

namespace ReducePoint

def mains : ReducePoint α → Nat
  | .posting _ _ => 1
  | .waiting _ => 1
  | .returned _ => 1
  | _ => 0

def unsettled : ReducePoint α → Nat
  | .task _ _ _ _ => 1
  | .settling _ => 1
  | _ => 0

def taskAt (j : Nat) : ReducePoint α → Nat
  | .task index _ _ _ => if index = j then 1 else 0
  | _ => 0

def rank (taskCount : Nat) : ReducePoint α → Nat
  | .posting index _ => 4 * (taskCount - index) + 3
  | .waiting _ => 1
  | .task _ _ _ _ => 2
  | .settling _ => 1
  | _ => 0

def Fact (f : ReduceFrame α) : ReducePoint α → Prop
  | .posting index start =>
    index = f.accepted ∧ index ≤ f.taskCount ∧ start = f.chunkStart index ∧ f.refused = false
  | .waiting admissionFailed =>
    admissionFailed = f.refused ∧ (admissionFailed = false → f.accepted = f.taskCount)
  | .returned result =>
    f.completed = f.accepted ∧
      result = if f.refused || f.cancelled then none else fold f.op f.values
  | .task index start count _ =>
    index < f.taskCount ∧ start = f.chunkStart index ∧ count = f.chunkCount index
  | _ => True

theorem Fact.of_not_main {f g : ReduceFrame α} {p : ReducePoint α} (h : p.Fact f)
    (hm : p.mains = 0) (hv : g.values = f.values) (hn : g.taskCount = f.taskCount) : p.Fact g := by
  cases p with
  | task index start count cancellable =>
    simpa only [Fact, chunkStart, chunkCount, hv, hn] using h
  | settling _ => trivial
  | settled => trivial
  | _ => cases hm

end ReducePoint

def Lost (s : ReduceSystem α) : Prop :=
  s.shared.failed = true ∨ settling false ∈ s.threads

structure ReduceInv (s : ReduceSystem α) : Prop where
  tasks : 0 < s.shared.taskCount
  fits : s.shared.taskCount ≤ s.shared.values.length
  assoc : Assoc s.shared.op
  main : load mains s.threads = 1
  count : s.shared.completed + load unsettled s.threads = s.shared.accepted
  fact : ∀ p ∈ s.threads, p.Fact s.shared
  results : ∀ i < s.shared.accepted,
    (∃ start count cancellable, task i start count cancellable ∈ s.threads) ∨ Lost s ∨
      s.shared.partials i = fold s.shared.op (s.shared.chunk i)
  lost : Lost s → s.shared.cancelled = true ∨ fold s.shared.op s.shared.values = none
  cancels : s.shared.cancelled = true → Lost s
  once : ∀ j, load (taskAt j) s.threads ≤ if j < s.shared.accepted then 1 else 0

namespace ReduceInv

variable {s : ReduceSystem α} {f : ReduceFrame α} {p q : ReducePoint α} {i : Nat}
  {new : List (ReducePoint α)}

theorem posting (hn : 0 < f.taskCount) (hle : f.taskCount ≤ f.values.length) (ha : Assoc f.op)
    (hz : f.accepted = 0 ∧ f.completed = 0 ∧ f.failed = false ∧ f.refused = false ∧
      f.cancelled = false) (h : Posting f s) : ReduceInv s := by
  subst h
  obtain ⟨h1,h2,h3,h4,h5⟩ := hz
  have hlost : ¬Lost ({ shared := f, threads := [.posting 0 0] } : ReduceSystem α) := by
    simp [Lost, h3]
  refine ⟨hn,hle,ha,rfl,by simp [h1, h2, unsettled],?_,?_,fun h => absurd h hlost,?_,
    fun j => by simp [taskAt]⟩
  · intro p hp
    obtain rfl := List.mem_singleton.1 hp
    exact ⟨h1.symm,Nat.zero_le _,by simp [chunkStart],h4⟩
  · intro i hi
    rw [h1] at hi
    cases hi
  · intro h
    rw [h5] at h
    cases h

section Move

variable (h : ReduceInv s) (hp : s.threads[i]? = some p)

include h hp

theorem main_move (hq : q.mains + load mains new = p.mains) :
    load mains (s.threads.set i q ++ new) = 1 := by
  have := load_step (w := mains) q new hp
  have := h.main
  omega

variable {g : ReduceFrame α}

theorem count_move (hc : g.completed + q.unsettled + load unsettled new + s.shared.accepted =
      s.shared.completed + p.unsettled + g.accepted) :
    g.completed + load unsettled (s.threads.set i q ++ new) = g.accepted := by
  have := load_step (w := unsettled) q new hp
  have := h.count
  omega

theorem once_move (hacc : g.accepted = s.shared.accepted) (hq : ∀ j, q.taskAt j = 0) (j : Nat) :
    load (taskAt j) (s.threads.set i q ++ []) ≤ if j < g.accepted then 1 else 0 := by
  have hstep := load_step (w := taskAt j) q [] hp
  have honce := h.once j
  rw [hacc]
  rw [hq j, load_nil] at hstep
  omega

theorem fact_main (hm : p.mains = 1) (hv : g.values = s.shared.values)
    (hn : g.taskCount = s.shared.taskCount) (hq : q.Fact g) (hnew : ∀ x ∈ new, x.Fact g) :
    ∀ x ∈ s.threads.set i q ++ new, x.Fact g := by
  refine forall_move h.fact hq hnew ?_
  intro j x hij hj hx
  have hload := weight_add_le_load (w := mains) hp hj (Ne.symm hij)
  have hone := h.main
  exact hx.of_not_main (by omega) hv hn

theorem fact_task (hu : p.unsettled = 1) (hv : g.values = s.shared.values)
    (hn : g.taskCount = s.shared.taskCount) (hacc : g.accepted = s.shared.accepted)
    (hr : g.refused = s.shared.refused) (hq : q.Fact g) :
    ∀ x ∈ s.threads.set i q ++ [], x.Fact g := by
  refine forall_move h.fact hq nofun ?_
  intro j x hij hj hx
  have hload := weight_le_load (w := unsettled) (List.mem_of_getElem? hp)
  have hcount := h.count
  cases x with
  | posting index start =>
    simpa only [ReducePoint.Fact, chunkStart, hv, hn, hacc, hr] using hx
  | waiting admissionFailed => simpa only [ReducePoint.Fact, hn, hacc, hr] using hx
  | returned result =>
    have hdone := hx.1
    omega
  | task index start count cancellable => exact hx.of_not_main rfl hv hn
  | settling _ => trivial
  | settled => trivial

omit h in
theorem lost_stays (q : ReducePoint α) (new : List (ReducePoint α))
    (hf : s.shared.failed = true → g.failed = true) (hs : p = .settling false → g.failed = true)
    (hl : Lost s) : Lost { shared := g, threads := s.threads.set i q ++ new } := by
  rcases hl with hl | hl
  · exact .inl (hf hl)
  · by_cases hpe : p = .settling false
    · exact .inl (hs hpe)
    · exact .inr (mem_stays hl hp (Ne.symm hpe))

theorem results_move (hr : g.reducer = s.shared.reducer)
    (hv : g.values = s.shared.values) (hn : g.taskCount = s.shared.taskCount)
    (hpart : g.partials = s.shared.partials) (hnot : ∀ j start count c, p ≠ .task j start count c)
    (hl : Lost s → Lost { shared := g, threads := s.threads.set i q ++ new }) {j : Nat}
    (hj : j < s.shared.accepted) :
    (∃ start count cancellable, task j start count cancellable ∈ s.threads.set i q ++ new) ∨
      Lost { shared := g, threads := s.threads.set i q ++ new } ∨
      g.partials j = fold g.op (g.chunk j) := by
  rcases h.results j hj with ⟨start,count,c,ht⟩ | hx | hx
  · exact .inl ⟨start,count,c,mem_stays ht hp (hnot j start count c).symm⟩
  · exact .inr (.inl (hl hx))
  refine .inr (.inr ?_)
  have hop : g.op = s.shared.op := by
    funext a b
    simp [op, hr]
  simpa only [hop, chunk, chunkStart, chunkCount, hv, hn, hpart] using hx

end Move

section Steps

variable (h : ReduceInv s)

include h

variable {index start count : Nat} {a : Act (ReducePoint α) ReduceChoice} {t : ReduceSystem α}

theorem accept {c : Bool} (hp : s.threads[i]? = some (.posting index start))
    (hi : index < s.shared.taskCount) :
    ReduceInv { shared := { s.shared with accepted := s.shared.accepted + 1 },
                threads := s.threads.set i (.posting (index + 1) (start + s.shared.chunkCount index)) ++
                  [.task index start (s.shared.chunkCount index) c] } := by
  obtain ⟨hacc,-,hstart,href⟩ := h.fact _ (List.mem_of_getElem? hp)
  have hl := lost_stays
    hp (.posting (index+1) (start+s.shared.chunkCount index))
    [.task index start (s.shared.chunkCount index) c] id nofun
  refine ⟨h.tasks,h.fits,h.assoc,h.main_move hp rfl,h.count_move hp ?_,
    h.fact_main hp rfl rfl rfl ?_ ?_,?_,?_,fun hc => hl (h.cancels hc),?_⟩
  · simp only [unsettled, load_cons, load_nil]
    omega
  · refine ⟨by rw [hacc],hi,?_,href⟩
    rw [hstart]
    exact (chunkStart_succ index).symm
  · intro x hx
    obtain rfl := List.mem_singleton.1 hx
    exact ⟨hi,hstart,rfl⟩
  · intro j hj
    rcases Nat.lt_succ_iff_lt_or_eq.1 hj with hj | rfl
    · exact h.results_move hp rfl rfl rfl rfl nofun hl hj
    · refine .inl ⟨start,s.shared.chunkCount index,c,?_⟩
      rw [← hacc]
      exact List.mem_append_right _ (List.mem_singleton.2 rfl)
  · intro hlost
    refine h.lost (hlost.imp id fun hm => ?_)
    rcases List.mem_append.1 hm with hm | hm
    · exact (List.mem_or_eq_of_mem_set hm).resolve_right nofun
    · cases List.mem_singleton.1 hm
  · intro j
    have hstep := load_step (w := taskAt j) (.posting (index+1) (start+s.shared.chunkCount index))
      [.task index start (s.shared.chunkCount index) c] hp
    have honce := h.once j
    show load (taskAt j) (s.threads.set i _ ++ _) ≤ if j < s.shared.accepted+1 then 1 else 0
    simp only [taskAt, load_cons, load_nil] at hstep
    split at hstep <;> split <;> split at honce <;> omega

theorem evaluator {g : ReduceFrame α} (hp : s.threads[i]? = some p) (hm : p.mains = 1)
    (hqm : q.mains = 1) (hg : g = { s.shared with refused := g.refused }) (hq : q.Fact g) :
    ReduceInv { shared := g, threads := s.threads.set i q ++ [] } := by
  have hps : p.unsettled = 0 := by cases p <;> first | rfl | cases hm
  have hqs : q.unsettled = 0 := by cases q <;> first | rfl | cases hqm
  rw [hg] at hq ⊢
  have hl := lost_stays hp q [] id
    (by rintro rfl; cases hm)
  refine ⟨h.tasks,h.fits,h.assoc,h.main_move hp ?_,h.count_move hp ?_,
    h.fact_main hp hm rfl rfl hq nofun,?_,?_,fun hc => hl (h.cancels hc),
    h.once_move hp rfl fun j => by cases q <;> first | rfl | cases hqm⟩
  · rw [hm, hqm]
    rfl
  · rw [hps, hqs]
    simp
  · intro j hj
    exact h.results_move hp rfl rfl rfl rfl (by rintro _ _ _ _ rfl; cases hm) hl hj
  · intro hlost
    refine h.lost (hlost.imp id fun hx => ?_)
    rw [List.append_nil] at hx
    refine (List.mem_or_eq_of_mem_set hx).resolve_right ?_
    rintro rfl
    cases hqm

theorem returned {admissionFailed : Bool} (hp : s.threads[i]? = some (.waiting admissionFailed))
    (hdone : s.shared.accepted ≤ s.shared.completed) :
    (if s.shared.mayMerge admissionFailed then s.shared.mergePartials else none) =
      if s.shared.refused || s.shared.cancelled then none
      else fold s.shared.op s.shared.values := by
  obtain ⟨hadm,hall⟩ := h.fact _ (List.mem_of_getElem? hp)
  have hcount := h.count
  have hzero : ∀ x ∈ s.threads, x.unsettled = 0 := by
    intro x hx
    have := weight_le_load (w := unsettled) hx
    omega
  have hlost : Lost s → s.shared.failed = true :=
    fun hl => hl.resolve_right fun hx => absurd (hzero _ hx) Nat.one_ne_zero
  cases hr : s.shared.refused with
  | true => simp [hadm, hr, mayMerge]
  | false =>
    rw [hr] at hadm
    subst hadm
    have hacc := hall rfl
    cases hf : s.shared.failed with
    | true =>
      rcases h.lost (.inl hf) with hc | hc
      · simp [mayMerge, hf, hc]
      · simp [mayMerge, hf, hc]
    | false =>
      have hnot : ¬Lost s := fun hl => by simp [hlost hl] at hf
      have hcan : s.shared.cancelled = false := by
        cases hc : s.shared.cancelled
        · rfl
        · exact absurd (h.cancels hc) hnot
      have hres : ∀ j < s.shared.taskCount,
          s.shared.partials j = fold s.shared.op (s.shared.chunk j) := by
        intro j hj
        rcases h.results j (by omega) with ⟨start,count,c,ht⟩ | hx | hx
        · exact absurd (hzero _ ht) Nat.one_ne_zero
        · exact absurd hx hnot
        · exact hx
      have hmerge := mergePartials_eq h.assoc h.tasks h.fits hres
      simp [mayMerge, hf, hcan, hacc, hmerge]

theorem run {c : Bool} (hp : s.threads[i]? = some (.task index start count c)) :
    ReduceInv
      { shared := { s.shared with
          partials := Function.update s.shared.partials index (s.shared.taskRun start count).1 },
        threads := s.threads.set i (.settling (s.shared.taskRun start count).2) ++ [] } := by
  obtain ⟨hi,rfl,rfl⟩ := h.fact _ (List.mem_of_getElem? hp)
  have hrun := taskRun_chunk h.tasks h.fits hi
  have hmem : settling
      (s.shared.taskRun (s.shared.chunkStart index) (s.shared.chunkCount index)).2 ∈ s.threads.set i
      (.settling (s.shared.taskRun (s.shared.chunkStart index) (s.shared.chunkCount index)).2) ++ [] :=
    mem_moved hp
  generalize s.shared.taskRun (s.shared.chunkStart index) (s.shared.chunkCount index) = r at hrun hmem ⊢
  have hl := lost_stays
    hp (.settling r.2) [] id nofun
  refine ⟨h.tasks,h.fits,h.assoc,h.main_move hp rfl,h.count_move hp rfl,
    h.fact_task hp rfl rfl rfl rfl rfl trivial,?_,?_,fun hc => hl (h.cancels hc),
    h.once_move hp rfl fun _ => rfl⟩
  · intro j hj
    by_cases hji : j = index
    · -- the task has just run: its partial is the fold of its chunk, or it settles as failed
      subst hji
      cases hok : r.2 with
      | false => exact .inr (.inl (.inr (hok ▸ hmem)))
      | true =>
        refine .inr (.inr ?_)
        show Function.update s.shared.partials j r.1 j = fold s.shared.op (s.shared.chunk j)
        rw [Function.update_self, hrun, hok, if_pos rfl]
    · rcases h.results j hj with ⟨start,count,k,ht⟩ | hx | hx
      · refine .inl ⟨start,count,k,mem_stays ht hp ?_⟩
        rintro ⟨⟩
        exact hji rfl
      · exact .inr (.inl (hl hx))
      · refine .inr (.inr ?_)
        show Function.update s.shared.partials index r.1 j = fold s.shared.op (s.shared.chunk j)
        rw [Function.update_of_ne hji, hx]
  · intro hlost
    rcases hlost with hf | hx
    · exact h.lost (.inl hf)
    rw [List.append_nil] at hx
    rcases List.mem_or_eq_of_mem_set hx with hx | hx
    · exact h.lost (.inr hx)
    · have hno := (settling.inj hx).symm
      rw [hno] at hrun
      exact .inr (fold_values_none h.assoc h.tasks h.fits hi hrun)

theorem cancel (hp : s.threads[i]? = some (.task index start count true)) :
    ReduceInv { shared := { s.shared with cancelled := true },
                threads := s.threads.set i (.settling false) ++ [] } := by
  have hlost : Lost ({ shared := { s.shared with cancelled := true },
                       threads := s.threads.set i (.settling false) ++ [] } : ReduceSystem α) :=
    .inr (mem_moved hp)
  exact ⟨h.tasks,h.fits,h.assoc,h.main_move hp rfl,h.count_move hp rfl,
    h.fact_task hp rfl rfl rfl rfl rfl trivial,fun _ _ => .inr (.inl hlost),fun _ => .inl rfl,
    fun _ => hlost,h.once_move hp rfl fun _ => rfl⟩

theorem settle {ok : Bool} (hp : s.threads[i]? = some (.settling ok)) :
    ReduceInv
      { shared := { s.shared with completed := s.shared.completed + 1, failed := s.shared.failed || !ok },
        threads := s.threads.set i .settled ++ [] } := by
  have hl := lost_stays
    (g := { s.shared with completed := s.shared.completed + 1, failed := s.shared.failed || !ok })
    hp .settled [] (fun hf => by simp [hf]) (by rintro ⟨⟩; simp)
  refine ⟨h.tasks,h.fits,h.assoc,h.main_move hp rfl,h.count_move hp ?_,
    h.fact_task hp rfl rfl rfl rfl rfl trivial,?_,?_,fun hc => hl (h.cancels hc),
    h.once_move hp rfl fun _ => rfl⟩
  · simp [unsettled]
  · intro j hj
    exact h.results_move
      (g := { s.shared with completed := s.shared.completed + 1, failed := s.shared.failed || !ok })
      hp rfl rfl rfl rfl nofun hl hj
  · intro hlost
    refine h.lost ?_
    rcases hlost with hf | hx
    · simp only [Bool.or_eq_true, Bool.not_eq_true'] at hf
      rcases hf with hf | rfl
      · exact .inl hf
      · exact .inr (List.mem_of_getElem? hp)
    · rw [List.append_nil] at hx
      exact .inr ((List.mem_or_eq_of_mem_set hx).resolve_right nofun)

theorem step (hs : reduceStep s a = some t) :
    ReduceInv t ∧ t.shared.reducer = s.shared.reducer ∧ t.shared.values = s.shared.values ∧
      t.shared.taskCount = s.shared.taskCount := by
  rcases step_cases hs with ⟨i,c,p,u,q,new,-,hp,hm,rfl⟩ | ⟨p,-,he,-⟩
  · have hmove : ReduceMove s.shared p u q new := ReduceMove.of_move hm
    cases hmove with
    | accept index start c hi => exact ⟨h.accept hp hi,rfl,rfl,rfl⟩
    | refuse index start hi => exact ⟨h.evaluator hp rfl rfl rfl ⟨rfl,nofun⟩,rfl,rfl,rfl⟩
    | allPosted index start hi =>
      obtain ⟨hacc,hle,-,href⟩ := h.fact _ (List.mem_of_getElem? hp)
      exact ⟨h.evaluator hp rfl rfl rfl ⟨href.symm,fun _ => by omega⟩,rfl,rfl,rfl⟩
    | merge admissionFailed hdone =>
      have hcount := h.count
      exact ⟨h.evaluator hp rfl rfl rfl ⟨by omega,h.returned hp hdone⟩,rfl,rfl,rfl⟩
    | run index start count c => exact ⟨h.run hp,rfl,rfl,rfl⟩
    | cancel index start count => exact ⟨h.cancel hp,rfl,rfl,rfl⟩
    | settle ok => exact ⟨h.settle hp,rfl,rfl,rfl⟩
  · cases he

theorem enabled (hr : ∀ result, ReducePoint.returned result ∉ s.threads) :
    ∃ i c, (reduceStep s (.run i c)).isSome = true := by
  -- a thread that can move is enough
  have hmove : ∀ p ∈ s.threads, ∀ c, (s.shared.move p c).isSome = true →
      ∃ i c, (reduceStep s (.run i c)).isSome = true := by
    intro p hp c hc
    obtain ⟨i,hi⟩ := List.getElem?_of_mem hp
    exact ⟨i,c,by simpa [reduceStep, ThreadPool.step, hi] using hc⟩
  have hmain : 0 < load ReducePoint.mains s.threads := by
    rw [h.main]
    exact Nat.one_pos
  obtain ⟨p,hp,hpos⟩ := exists_of_load_pos hmain
  cases p with
  | posting index start =>
    by_cases hi : index < s.shared.taskCount
    · exact hmove _ hp (.accept true) (by simp [move, hi])
    · exact hmove _ hp .go (by simp [move, hi])
  | waiting admissionFailed =>
    by_cases hdone : s.shared.completed < s.shared.accepted
    · have hcount := h.count
      have hpos : 0 < load ReducePoint.unsettled s.threads := by omega
      obtain ⟨x,hx,hxpos⟩ := exists_of_load_pos hpos
      cases x with
      | task index start count c => exact hmove _ hx .run rfl
      | settling ok => exact hmove _ hx .go rfl
      | _ => exact absurd hxpos (Nat.lt_irrefl 0)
    · exact hmove _ hp .go (by simp [move, hdone])
  | returned result => exact absurd hp (hr result)
  | _ => exact absurd hpos (Nat.lt_irrefl 0)

omit h in
theorem rank_step (hs : reduceStep s a = some t) :
    load (rank t.shared.taskCount) t.threads < load (rank s.shared.taskCount) s.threads := by
  rcases step_cases hs with ⟨i,c,p,u,q,new,-,hp,hm,rfl⟩ | ⟨p,-,he,-⟩
  · have hstep := load_step (w := rank s.shared.taskCount) q new hp
    have hmove := ReduceMove.of_move hm
    cases hmove
    all_goals
      simp only [rank, load_cons, load_nil] at hstep
      show load (rank s.shared.taskCount) (s.threads.set i _ ++ _) < _
      omega
  · cases he

omit h in
theorem rank_exec {acts : List (Act (ReducePoint α) ReduceChoice)}
    (he : exec reduceStep s acts = some t) :
    acts.length ≤ load (rank s.shared.taskCount) s.threads := by
  induction acts generalizing s with
  | nil => exact Nat.zero_le _
  | cons a acts ih =>
    rw [exec_cons, Option.bind_eq_some_iff] at he
    obtain ⟨u,hu,he⟩ := he
    have := rank_step hu
    have := ih he
    simp only [List.length_cons]
    omega

end Steps

end ReduceInv

/-! ### What the evaluator returns -/

variable {α ρ : Type}

section Plans

variable {p : Path α ρ} {managed : Bool} {impl : PlanImpl α} {inputs : List α} {o : PlanEvalOptions}
  {f : ReduceFrame α}

theorem Path.compile_parallel (hc : p.compile managed = .ok impl)
    (hs : impl.parallelReduceSupported = true) :
    impl.fusedValue = false ∧ ∃ call, impl.code.getLast? = some (.reduce call none) := by
  obtain ⟨-,-,impl₀,hfused,hpar,rfl⟩ := Path.compile_ok hc
  rw [prepareFusedValue_parallel] at hs
  rw [prepareFusedValue_code, prepareParallelReduce_code]
  have hlast : ∃ call, impl₀.code.getLast? = some (.reduce call none) := by
    unfold prepareParallelReduce at hs
    split at hs
    · rename_i hcond
      obtain ⟨last,hlast,hred⟩ := (Option.any_eq_true _ _).1 (Bool.and_eq_true_iff.1 hcond).1
      cases last with
      | reduce call seed =>
        cases seed with
        | none => exact ⟨call,hlast⟩
        | some a => cases hred
      | _ => cases hred
    · rw [hpar] at hs
      cases hs
  refine ⟨?_,hlast⟩
  obtain ⟨call,hlast⟩ := hlast
  by_contra hf
  rw [Bool.not_eq_false] at hf
  have hnot : impl₀.prepareParallelReduce.fusedValue = false := by
    rw [prepareParallelReduce_fused, hfused]
  obtain ⟨hfilters,hmaps⟩ := prepareFusedValue_fused hnot hf
  rw [prepareParallelReduce_code] at hfilters hmaps
  have hmem := List.mem_of_getLast? hlast
  rw [← List.take_append_drop impl₀.prepareParallelReduce.prepareFusedValue.fusedFilterCount impl₀.code]
    at hmem
  rcases List.mem_append.1 hmem with hm | hm
  · exact Bool.false_ne_true (hfilters _ hm)
  · exact Bool.false_ne_true (hmaps _ hm)

theorem PlanImpl.parallelReduceFrame_some (hf : impl.parallelReduceFrame inputs o = some f) :
    impl.parallelReduceSupported = true ∧
      (∃ seed, impl.code.getLast? = some (.reduce f.reducer seed)) ∧
      impl.evalPrefixMaterialized (impl.code.length - 1) inputs = some f.values ∧
      2 ≤ f.taskCount ∧ f.taskCount ≤ f.values.length ∧
      f = { reducer := f.reducer, values := f.values, taskCount := f.taskCount } := by
  unfold parallelReduceFrame at hf
  split at hf
  · cases hf
  rename_i hcond
  simp only [not_or, Bool.not_eq_false] at hcond
  split at hf
  · rename_i call seed values hlast hvalues
    dsimp only at hf
    split at hf
    · cases hf
    rename_i hn
    simp only [not_or, Nat.not_lt] at hn
    cases hf
    exact ⟨hcond.2.2.1,⟨seed,hlast⟩,hvalues,hn.1,hn.2,rfl⟩
  · cases hf

theorem reduceLoop_eq (call : Callable (α × α) α) (a : α) (vs : List α) :
    reduceLoop call a vs = foldFrom (fun a b => call.invoke (a, b)) a vs := by
  induction vs generalizing a with
  | nil => rfl
  | cons v vs ih => exact Option.bind_congr fun b _ => ih b

theorem PlanImpl.evalArray_eq_fold (hc : p.compile managed = .ok impl)
    (hf : impl.parallelReduceFrame inputs o = some f) :
    impl.evalArray inputs = (fold f.op f.values).map fun v => [v] := by
  obtain ⟨hs,⟨seed,hlast⟩,hvalues,htwo,hle,-⟩ := parallelReduceFrame_some hf
  obtain ⟨hfused,call,hcall⟩ := Path.compile_parallel hc hs
  obtain ⟨rfl,rfl⟩ := PlanInst.reduce.inj (Option.some.inj (hlast.symm.trans hcall))
  obtain ⟨code,hcode⟩ : ∃ code, impl.code = code ++ [.reduce f.reducer none] :=
    ⟨_,(List.dropLast_append_getLast? _ hlast).symm⟩
  rw [evalPrefixMaterialized_of_le (Nat.sub_le _ _), hcode, List.length_append, List.length_singleton,
    Nat.add_sub_cancel, List.take_left] at hvalues
  have heval : evalCode impl.code inputs = stepReduce f.reducer none f.values := by
    rw [hcode, evalCode_append, hvalues]
    simp [evalCode, PlanInst.step]
  rw [evalArray, hfused, evalPrefixMaterialized_of_le (Nat.le_refl _), List.take_length, heval]
  cases hv : f.values with
  | nil =>
    rw [hv] at hle
    simp only [List.length_nil] at hle
    omega
  | cons v vs =>
    rw [stepReduce, reduceLoop_eq]
    rfl

theorem parallelTaskCount_spec (n : Nat) (hmax : o.maxTasks ≠ 0) (hmin : o.minItemsPerTask ≠ 0) :
    parallelTaskCount n o ≤ n ∧
      (parallelTaskCount n o < 2 ↔ o.maxTasks < 2 ∨ n ≤ o.minItemsPerTask) := by
  have heq : parallelTaskCount n o =
      min (n / o.minItemsPerTask+if n % o.minItemsPerTask = 0 then 0 else 1) o.maxTasks := by
    simp only [parallelTaskCount, hmax, hmin, or_self, if_false]
    exact (min_def_lt _ _).symm
  have hm := Nat.pos_of_ne_zero hmin
  have hdiv := Nat.div_add_mod n o.minItemsPerTask
  have hr := Nat.mod_lt n hm
  rw [heq]
  generalize n / o.minItemsPerTask = q at hdiv ⊢
  generalize n % o.minItemsPerTask = r at hdiv hr ⊢
  generalize o.minItemsPerTask = m at hdiv hr hm ⊢
  have hq := Nat.le_mul_of_pos_left q hm
  -- with two full chunks or more the values do not fit one
  have htwo : 2 ≤ q → m * 2 ≤ m * q := Nat.mul_le_mul_left m
  have hdesired : q+(if r = 0 then 0 else 1) < 2 ↔ n ≤ m := by
    rcases (by omega : q = 0 ∨ q = 1 ∨ 2 ≤ q) with rfl | rfl | h
    · split <;> omega
    · split <;> omega
    · omega
  have hle : q+(if r = 0 then 0 else 1) ≤ n := by
    split <;> omega
  refine ⟨by omega,?_⟩
  omega

theorem PlanImpl.parallelReduceFrame_none (hs : impl.parallelReduceSupported = true)
    (hc : p.compile managed = .ok impl) (ho : o.concurrent = true ∧ o.isCurrent = false) {values : List α}
    (hv : impl.evalPrefixMaterialized (impl.code.length - 1) inputs = some values) :
    impl.parallelReduceFrame inputs o = none ↔
      o.maxTasks < 2 ∨ o.minItemsPerTask = 0 ∨ values.length ≤ o.minItemsPerTask := by
  obtain ⟨-,call,hcall⟩ := Path.compile_parallel hc hs
  unfold parallelReduceFrame
  simp only [hs, ho.1, ho.2, hcall, hv, Bool.true_eq_false, Bool.false_eq_true, or_false]
  by_cases hzero : o.maxTasks = 0 ∨ o.minItemsPerTask = 0
  · rw [if_pos hzero]
    refine iff_of_true rfl ?_
    omega
  · rw [if_neg hzero, ite_eq_left_iff]
    simp only [not_or] at hzero
    obtain ⟨hle,htwo⟩ := parallelTaskCount_spec values.length hzero.1 hzero.2
    constructor
    · intro h
      by_contra hne
      have := h (by omega)
      cases this
    · omega

/-- Parallel reduction with an associative reducer.  It is refused without a task when it would have
fewer than two.  Otherwise the chunks tile the values in front of the reducer, each is posted at most
once, and in every order of the tasks the evaluator returns what the sequential evaluation returns,
or nothing when a task was refused or cancelled.  It does return: until then some thread can move,
and there is a bound on the moves of all threads. -/
theorem parallel_reduce_eq_sequential (hc : p.compile managed = .ok impl)
    (hassoc : ∀ call seed, impl.code.getLast? = some (.reduce call seed) →
      Assoc fun a b => call.invoke (a, b)) :
    (∀ values, impl.parallelReduceSupported = true → o.concurrent = true → o.isCurrent = false →
      impl.evalPrefixMaterialized (impl.code.length - 1) inputs = some values →
      (impl.parallelReduceFrame inputs o = none ↔
        o.maxTasks < 2 ∨ o.minItemsPerTask = 0 ∨ values.length ≤ o.minItemsPerTask)) ∧
    ∀ f s, impl.parallelReduceFrame inputs o = some f → Reach reduceStep (Posting f) anyAction s →
      (impl.evalPrefixMaterialized (impl.code.length - 1) inputs = some f.values ∧
        ((List.range f.taskCount).map f.chunk).flatten = f.values ∧
        (∀ index start count c, ReducePoint.task index start count c ∈ s.threads →
          index < f.taskCount ∧ (f.values.drop start).take count = f.chunk index) ∧
        ∀ index, load (ReducePoint.taskAt index) s.threads ≤ 1) ∧
      (∀ result, ReducePoint.returned result ∈ s.threads →
        (result.map fun v => [v]) =
          if s.shared.refused || s.shared.cancelled then none else impl.evalArray inputs) ∧
      ((∀ result, ReducePoint.returned result ∉ s.threads) →
        ∃ i c, (reduceStep s (.run i c)).isSome = true) ∧
      ∀ t, Posting f t → ∀ acts u, exec reduceStep t acts = some u → acts.length ≤ 4 * f.taskCount + 3 := by
  refine ⟨fun values hs ho1 ho2 hv => parallelReduceFrame_none hs hc ⟨ho1,ho2⟩ hv,?_⟩
  intro f s hf hreach
  obtain ⟨-,⟨seed,hlast⟩,hvalues,htwo,hle,hfresh⟩ := parallelReduceFrame_some hf
  have hzero : f.accepted = 0 ∧ f.completed = 0 ∧ f.failed = false ∧ f.refused = false ∧
      f.cancelled = false := by
    rw [hfresh]
    exact ⟨rfl,rfl,rfl,rfl,rfl⟩
  obtain ⟨hinv,hr,hv,hn⟩ : ReduceInv s ∧ s.shared.reducer = f.reducer ∧
      s.shared.values = f.values ∧ s.shared.taskCount = f.taskCount := by
    refine hreach.invariant (I := fun s => ReduceInv s ∧ s.shared.reducer = f.reducer ∧
      s.shared.values = f.values ∧ s.shared.taskCount = f.taskCount) ?_ ?_
    · intro s hs
      refine ⟨.posting (by omega) hle (hassoc f.reducer seed hlast) hzero hs,?_⟩
      subst hs
      exact ⟨rfl,rfl,rfl⟩
    · rintro s a t ⟨hi,h1,h2,h3⟩ - ha
      obtain ⟨ht,h4,h5,h6⟩ := hi.step ha
      exact ⟨ht,h4.trans h1,h5.trans h2,h6.trans h3⟩
  have hop : s.shared.op = f.op := by
    funext a b
    simp [op, hr]
  refine ⟨⟨hvalues,?_,?_,?_⟩,?_,hinv.enabled,?_⟩
  · rw [chunks_flatten, chunkStart_taskCount (by omega), List.take_length]
  · intro index start count c ht
    obtain ⟨hi,rfl,rfl⟩ := hinv.fact _ ht
    simp only [chunk, chunkStart, chunkCount, hv, hn] at hi ⊢
    exact ⟨hi,trivial⟩
  · intro index
    have := hinv.once index
    split at this <;> omega
  · intro result hres
    obtain ⟨-,rfl⟩ := hinv.fact _ hres
    rw [evalArray_eq_fold hc hf, hop, hv]
    split <;> rfl
  · rintro t rfl acts u he
    have := ReduceInv.rank_exec he
    simpa [ReducePoint.rank] using this

end Plans

def sumPlan : PlanImpl Nat :=
  { code := [.map [{ invoke := fun x => some (2 * x), pure := true, deterministic := true,
                     total := true, noAlias := true }],
      .reduce { invoke := fun x => some (x.1 + x.2), pure := true, total := true,
                associative := true, noAlias := true } none]
    parallelReduceSupported := true }

def sumPath : Path Nat Unit where
  lead := [.map [{ invoke := fun x => some (2 * x), pure := true, deterministic := true,
                   total := true, noAlias := true }]]
  stages := [{ id := 2, op := .reduce { invoke := fun x => some (x.1 + x.2), pure := true,
                                        total := true, associative := true, noAlias := true } none }]

theorem sumPath_compile : sumPath.compile false = .ok sumPlan := rfl

def secondFirst : List (Act (ReducePoint Nat) ReduceChoice) :=
  [.run 0 (.accept true), .run 0 (.accept false), .run 2 .run, .run 2 .go, .run 0 .go, .run 1 .run,
    .run 1 .go, .run 0 .go]

def sumFrame : ReduceFrame Nat where
  reducer := { invoke := fun x => some (x.1 + x.2), pure := true, total := true,
               associative := true, noAlias := true }
  values := [2, 4, 6, 8, 10]
  taskCount := 2

theorem secondFirst_returns :
    sumPlan.parallelReduceFrame [1, 2, 3, 4, 5] { maxTasks := 2, minItemsPerTask := 2 } =
        some sumFrame ∧
      ∃ s, exec reduceStep { shared := sumFrame, threads := [.posting 0 0] } secondFirst = some s ∧
        (returned (some 30) ∈ s.threads ∧ s.shared.refused = false ∧ s.shared.cancelled = false) ∧
        some [30] = sumPlan.evalArray [1, 2, 3, 4, 5] := by
  have hassoc : ∀ call seed, sumPlan.code.getLast? = some (.reduce call seed) →
      Assoc fun a b => call.invoke (a,b) := by
    rintro call seed ⟨⟩ a b c
    exact congrArg some (Nat.add_assoc a b c)
  have hframe : sumPlan.parallelReduceFrame [1, 2, 3, 4, 5]
      { maxTasks := 2, minItemsPerTask := 2 } = some sumFrame := rfl
  refine ⟨hframe,exec_shows_and (by decide +kernel) fun s hs hend => ?_⟩
  have h := (parallel_reduce_eq_sequential sumPath_compile hassoc).2 _ s hframe
    (.exec (.start rfl) (fun _ _ _ => trivial) hs)
  have hresult := h.2.1 (some 30) hend.1
  rwa [hend.2.1, hend.2.2] at hresult

/-- One value is below the least size of a task: parallel reduction fails where the sequential one
returns the value. -/
theorem one_value_not_reduced :
    sumPlan.parallelReduceFrame [41] { maxTasks := 4, minItemsPerTask := 2 } = none ∧
      sumPlan.evalArray [41] = some [82] := ⟨rfl,rfl⟩

end Salts.CFlow
