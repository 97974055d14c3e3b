import Mathlib.Algebra.Order.BigOperators.Group.List
import Mathlib.Algebra.Order.Ring.Nat
import Salts.Transition

/-!
Threads over one shared state.  A configuration is the shared state with the control point of every
thread; an action lets one thread make a step, which may start others, or lets a new thread enter.
What the threads hold together (references, a flag, a turn) is a load: the sum of a weight over
their control points, balanced against the shared state by every step.
-/

namespace ThreadPool

variable {σ π χ : Type*}

structure Config (σ π : Type*) where
  shared : σ
  threads : List π

/-- Thread `i` makes a step with choice `c`, or a thread enters at a point. -/
inductive Act (π χ : Type*) where
  | run (i : Nat) (c : χ)
  | enter (p : π)

/-- Actions of a pool whose threads move by `move` and enter where `entry` allows it. -/
def step (move : σ → π → χ → Option (σ × π × List π)) (entry : π → Bool) (s : Config σ π) :
    Act π χ → Option (Config σ π)
  | .run i c =>
    (s.threads[i]?).bind fun p =>
      (move s.shared p c).map fun r =>
        { shared := r.1, threads := s.threads.set i r.2.1 ++ r.2.2 }
  | .enter p =>
    if entry p then some { shared := s.shared, threads := s.threads ++ [p] } else none

def avoids (bad : Config σ π → π → Bool) (s : Config σ π) : Act π χ → Prop
  | .run i _ => (s.threads[i]?).all (fun p => !bad s p) = true
  | .enter _ => True

instance (bad : Config σ π → π → Bool) (s : Config σ π) : (a : Act π χ) → Decidable (avoids bad s a)
  | .run _ _ => inferInstanceAs (Decidable (_ = true))
  | .enter _ => inferInstanceAs (Decidable True)

def load (w : π → Nat) (threads : List π) : Nat := (threads.map w).sum

variable {w : π → Nat} {threads new : List π} {p q : π} {i j : Nat}

@[simp] theorem load_nil : load w [] = 0 := rfl

@[simp] theorem load_cons : load w (p :: threads) = w p + load w threads := by
  simp [load]

@[simp] theorem load_append : load w (threads ++ new) = load w threads + load w new := by
  simp [load]

theorem load_enter (threads : List π) (hp : w p = 0) : load w (threads ++ [p]) = load w threads := by
  simp [hp]

theorem load_set (hp : threads[i]? = some p) :
    load w (threads.set i q) + w p = load w threads + w q := by
  induction threads generalizing i with
  | nil => simp at hp
  | cons r threads ih =>
    cases i with
    | zero =>
      obtain rfl : r = p := by simpa using hp
      simp only [List.set_cons_zero, load_cons]
      omega
    | succ i =>
      have := ih (by simpa using hp)
      simp only [List.set_cons_succ, load_cons]
      omega

theorem weight_le_load (hp : p ∈ threads) : w p ≤ load w threads := by
  induction threads with
  | nil => cases hp
  | cons r threads ih =>
    rcases List.mem_cons.1 hp with rfl | hp
    · simp
    · have := ih hp
      simp only [load_cons]
      omega

variable {v : π → Nat}

theorem load_le_load (h : ∀ p ∈ threads, w p ≤ v p) : load w threads ≤ load v threads :=
  List.sum_le_sum h

theorem load_add : load (fun p => w p + v p) threads = load w threads + load v threads :=
  List.sum_map_add

theorem exists_of_load_pos (h : 0 < load w threads) : ∃ p ∈ threads, 0 < w p := by
  induction threads with
  | nil => simp at h
  | cons r threads ih =>
    by_cases hr : 0 < w r
    · exact ⟨r,by simp,hr⟩
    · obtain ⟨p,hp,hw⟩ := ih (by simp only [load_cons] at h; omega)
      exact ⟨p,by simp [hp],hw⟩

theorem weight_add_le_load (hi : threads[i]? = some p) (hj : threads[j]? = some q) (hij : i ≠ j) :
    w p + w q ≤ load w threads := by
  induction threads generalizing i j with
  | nil => simp at hi
  | cons r threads ih =>
    cases i with
    | zero =>
      cases j with
      | zero => exact absurd rfl hij
      | succ j =>
        obtain rfl : r = p := by simpa using hi
        have := weight_le_load (w := w) (List.mem_of_getElem? (by simpa using hj))
        simp only [load_cons]
        omega
    | succ i =>
      cases j with
      | zero =>
        obtain rfl : r = q := by simpa using hj
        have := weight_le_load (w := w) (List.mem_of_getElem? (by simpa using hi))
        simp only [load_cons]
        omega
      | succ j =>
        have := ih (i := i) (j := j) (by simpa using hi) (by simpa using hj) (by omega)
        simp only [load_cons]
        omega

theorem flag_of_pos {b : Bool} (h : 0 < b.toNat) : b = true := by
  cases b
  · cases h
  · rfl

variable {move : σ → π → χ → Option (σ × π × List π)} {entry : π → Bool}
  {s t : Config σ π} {a : Act π χ}

theorem step_cases (h : step move entry s a = some t) :
    (∃ i c p u q new, a = .run i c ∧ s.threads[i]? = some p ∧ move s.shared p c = some (u, q, new) ∧
      t = { shared := u, threads := s.threads.set i q ++ new }) ∨
    (∃ p, a = .enter p ∧ entry p = true ∧
      t = { shared := s.shared, threads := s.threads ++ [p] }) := by
  cases a with
  | run i c =>
    simp only [step, Option.bind_eq_some_iff, Option.map_eq_some_iff] at h
    obtain ⟨p,hp,⟨u,q,new⟩,hm,rfl⟩ := h
    exact .inl ⟨i,c,p,u,q,new,rfl,hp,hm,rfl⟩
  | enter p =>
    simp only [step, Option.ite_none_right_eq_some, Option.some.injEq] at h
    exact .inr ⟨p,rfl,h.1,h.2.symm⟩

theorem avoids_run {bad : Config σ π → π → Bool} {c : χ} (h : avoids bad s (.run i c))
    (hp : s.threads[i]? = some p) : bad s p = false := by
  simpa [avoids, hp] using h

theorem load_step (q : π) (new : List π) (hp : threads[i]? = some p) :
    load w (threads.set i q ++ new) + w p = load w threads + w q + load w new := by
  have := load_set (w := w) (q := q) hp
  rw [load_append]
  omega

variable {x u : σ}

/-- A quantity of the shared state that a move changes as the moving thread's weight does stays
what the threads hold together. -/
theorem balanced_move {f : σ → Nat} (hb : f x = load w threads) (hp : threads[i]? = some p)
    (hm : f u + w p = f x + w q + load w new) : f u = load w (threads.set i q ++ new) := by
  have := load_step (w := w) q new hp
  omega

theorem mem_moved (hp : threads[i]? = some p) : q ∈ threads.set i q ++ new :=
  List.mem_append_left _ (List.mem_set (List.getElem?_eq_some_iff.1 hp).1 q)

theorem mem_other (hj : threads[j]? = some p) (hij : j ≠ i) : p ∈ threads.set i q ++ new := by
  refine List.mem_append_left _ (List.mem_of_getElem? (i := j) ?_)
  rw [List.getElem?_set_ne hij.symm, hj]

theorem mem_stays {x : π} (hx : x ∈ threads) (hp : threads[i]? = some p) (hne : x ≠ p) :
    x ∈ threads.set i q ++ new := by
  obtain ⟨j,hj⟩ := List.getElem?_of_mem hx
  refine mem_other hj ?_
  rintro rfl
  rw [hp] at hj
  exact hne (Option.some.inj hj).symm

/-- A fact of every thread is kept when the thread that moved, those it started and the others have
it. -/
theorem forall_move {T : σ → π → Prop} (h : ∀ p ∈ threads, T x p) (hq : T u q)
    (hnew : ∀ p ∈ new, T u p) (hother : ∀ j p, j ≠ i → threads[j]? = some p → T x p → T u p) :
    ∀ p ∈ threads.set i q ++ new, T u p := by
  intro p hp
  rcases List.mem_append.1 hp with hp | hp
  · obtain ⟨j,hj⟩ := List.getElem?_of_mem hp
    by_cases hij : i = j
    · subst hij
      obtain ⟨hlt,rfl⟩ := List.getElem?_eq_some_iff.1 hj
      simpa using hq
    · rw [List.getElem?_set_ne hij] at hj
      exact hother j p (Ne.symm hij) hj (h p (List.mem_of_getElem? hj))
  · exact hnew p hp

/-- The moves of one thread with nothing in between, as long as it starts no other. -/
def solo (move : σ → π → χ → Option (σ × π × List π)) : σ → π → List χ → Option (σ × π)
  | x, p, [] => some (x, p)
  | x, p, c :: cs =>
    match move x p c with
    | some (u, q, []) => solo move u q cs
    | _ => none

variable {cs : List χ}

theorem exec_solo_run (h : solo move x p cs = some (u, q)) :
    Transition.exec (step move entry) { shared := x, threads := threads ++ [p] }
      (cs.map (.run threads.length)) = some { shared := u, threads := threads ++ [q] } := by
  induction cs generalizing x p with
  | nil =>
    obtain ⟨rfl,rfl⟩ : x = u ∧ p = q := by simpa [solo] using h
    rfl
  | cons c cs ih =>
    rw [solo] at h
    split at h
    · rename_i y r hm
      have hset : (threads ++ [p]).set threads.length r = threads ++ [r] := by simp
      simpa [step, hm] using ih h
    · cases h

theorem reach_solo {init : Config σ π → Prop}
    (hs : Transition.Reach (step move entry) init Transition.anyAction s) (hp : entry p = true)
    (h : solo move s.shared p cs = some (u, q)) :
    Transition.Reach (step move entry) init Transition.anyAction
      { shared := u, threads := s.threads ++ [q] } := by
  have henter : step move entry s (.enter p) =
      some { shared := s.shared, threads := s.threads ++ [p] } := if_pos hp
  exact (hs.next trivial henter).exec (fun _ _ _ => trivial) (exec_solo_run h)

end ThreadPool
