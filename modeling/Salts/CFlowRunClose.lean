import Salts.CFlowRunMove

/-!
Closing a subscription: who may destroy it, how often, and what a destroyed run still has.  What
holds of every interleaving comes first (`CloseInv`); that nothing is left when the run is destroyed
needs that a cancellation, once requested, is neither refused by the scheduler nor overtaken by a
new waitable (`CancelSettles`).
-/

namespace Salts.CFlow

open ThreadPool RunImpl Transition
open RunPoint

variable {δ α ε : Type}

namespace RunReturn

def told : RunReturn → Bool
  | .inDone => true
  | .inError _ => true
  | .inRejected _ _ => true
  | _ => false

/-- Places `cflow_subscription_close` is called from. -/
def closes : RunReturn → Bool
  | .caller => false
  | .ignored => false
  | .release => false
  | _ => true

end RunReturn

namespace RunPoint

def told : RunPoint α ε → Bool
  | .notifyRejected _ _ _ => true
  | .inRejected _ _ => true
  | .notifyError _ _ => true
  | .inError _ => true
  | .notifyDone => true
  | .inDone => true
  | .closeMark k => k.told
  | .cancel k => k.told
  | .schedule _ _ k => k.told
  | .posting _ k => k.told
  | .accepted k => k.told
  | .rejected _ _ k => k.told
  | .releaseRejected _ k => k.told
  | .releasePosting _ k => k.told
  | _ => false

def marked : RunPoint α ε → Bool
  | .closeMark _ => false
  | p => p.closers != 0

def cancels : RunPoint α ε → Nat
  | .cancel k => k.closes.toNat
  | _ => 0

/-- A thread that will schedule the pump of a closed run: the pump that has just ended, and the
external closer. -/
def owes : RunPoint α ε → Nat
  | .schedule _ _ .release => 1
  | .schedule _ _ .closer => 1
  | .cancel .closer => 1
  | _ => 0

def claims : RunPoint α ε → Nat
  | .closeDestroy => 1
  | _ => 0

@[simp] theorem closing_back (st : Status) (k : RunReturn) :
    (back st k : RunPoint α ε).told = k.told ∧
      (back st k : RunPoint α ε).marked = (k.closers != 0) ∧
      (back st k : RunPoint α ε).cancels = 0 ∧ (back st k : RunPoint α ε).owes = 0 := by
  cases k <;> exact ⟨rfl,rfl,rfl,rfl⟩

@[simp] theorem closing_loop (next : Option Nat) :
    (loop next : RunPoint α ε).told = false ∧ (loop next : RunPoint α ε).marked = false ∧
      (loop next : RunPoint α ε).cancels = 0 ∧ (loop next : RunPoint α ε).owes = 0 := by
  cases next <;> exact ⟨rfl,rfl,rfl,rfl⟩

end RunPoint

structure CloseInv (s : RunSystem δ α ε) : Prop where
  closers : load RunPoint.closers s.threads + s.shared.destroying.toNat ≤ 1
  claimed : s.shared.externalCloser = false → load RunPoint.closers s.threads = 0
  claimer : s.shared.externalCloser = true →
    load RunPoint.closers s.threads + s.shared.destroying.toNat = 1
  kept : s.shared.closeRequested = true →
    s.shared.destroying = true ∨ s.shared.externalCloser = true ∨ 0 < s.shared.taskRefs
  destroys : load RunPoint.destroys s.threads + s.shared.freed = s.shared.destroying.toNat
  marked : ∀ p ∈ s.threads, p.marked = true → s.shared.closeRequested = true
  destroying : s.shared.destroying = true → s.shared.closeRequested = true
  closed : s.shared.closed = true → s.shared.destroying = true
  returned : .closeReturned ∈ s.threads → s.shared.freed = 1
  told : ∀ p ∈ s.threads, p.told = true → s.shared.terminated = true
  places : ∀ p ∈ s.threads, ∀ k, p = .closeMark k → k.closes = true

section Moves

variable {P : Plane δ α ε} {r t : RunImpl δ α} {p q : RunPoint α ε} {new : List (RunPoint α ε)}

theorem releaseTaskRef_destroys (h : r.releaseTaskRef.2 = true) :
    r.taskRefs - 1 = 0 ∧ r.closeRequested = true ∧ r.freed = 0 ∧ r.externalCloser = false ∧
      r.destroying = false := by
  simpa [RunImpl.releaseTaskRef, and_assoc] using h

theorem releaseTaskRef_keeps (h : r.releaseTaskRef.2 = false) :
    r.releaseTaskRef.1 = { r with taskRefs := r.taskRefs - 1 } := by
  have hd : (r.destroying || r.releaseTaskRef.2) = r.destroying := by simp [h]
  simp only [RunImpl.releaseTaskRef] at hd ⊢
  rw [hd]

theorem releaseTaskRef_destroying (h : r.releaseTaskRef.2 = true) :
    r.releaseTaskRef.1 = { r with taskRefs := r.taskRefs - 1, destroying := true } := by
  have hd : (r.destroying || r.releaseTaskRef.2) = true := by simp [h]
  simp only [RunImpl.releaseTaskRef] at hd ⊢
  rw [hd]

attribute [local simp] takeTaskRefs joinScheduled releaseTaskRef rejectPost RunImpl.takeCancel
  clearScheduledTask failStatus addDemand

section

variable (h : RunMove P r p t q new)

include h

theorem RunMove.closers_cases :
    (q.closers = p.closers ∧ load closers new = 0 ∧ t.destroying = r.destroying ∧
      t.externalCloser = r.externalCloser) ∨
    (p.closers = 0 ∧ q.closers = 1 ∧ new = [] ∧ r.externalCloser = false ∧
      t.externalCloser = true ∧ r.destroying = false ∧ t.destroying = false) ∨
    (p.closers = 1 ∧ q.closers = 0 ∧ new = [] ∧ t.destroying = true ∧
      t.externalCloser = r.externalCloser) ∨
    (q.closers = 0 ∧ new = [] ∧ r.externalCloser = false ∧ r.destroying = false ∧
      t.destroying = true ∧ t.externalCloser = false) := by
  cases h
  case claim he hd => exact .inr (.inl ⟨rfl,rfl,rfl,he,rfl,hd,hd⟩)
  case closeDestroy => exact .inr (.inr (.inl ⟨rfl,rfl,rfl,rfl,rfl⟩))
  case releaseRejectedDestroys hd | releasePostingDestroys hd | releaseTaskDestroys hd =>
    obtain ⟨-,-,-,he,hx⟩ := releaseTaskRef_destroys hd
    rw [releaseTaskRef_destroying hd]
    exact .inr (.inr (.inr ⟨rfl,rfl,he,hx,rfl,he⟩))
  case releaseRejected hd | releasePosting hd | releaseTask hd =>
    rw [releaseTaskRef_keeps hd]
    refine .inl ⟨?_,rfl,rfl,rfl⟩
    first | rfl | exact (weights_back _ _).2.2.1
  all_goals refine .inl ⟨?_,rfl,rfl,rfl⟩
  all_goals try simp only [weights_back, weights_loop]
  all_goals rfl

/-- A run that is asked to close is about to be destroyed, has its closer, or has a task that destroys
it with its last reference. -/
theorem RunMove.kept (hk : ∀ k, p = .closeMark k → k.closes = true)
    (hc : 0 < p.closers → r.externalCloser = true) (hp : p.refs ≤ r.taskRefs)
    (hf : r.freed ≠ 0 → r.destroying = true) (hr : r.closeRequested = true →
      r.destroying = true ∨ r.externalCloser = true ∨ 0 < r.taskRefs) :
    t.closeRequested = true → t.destroying = true ∨ t.externalCloser = true ∨ 0 < t.taskRefs := by
  cases h
  case claim => exact fun _ => .inr (.inl rfl)
  case mark k _ =>
    refine fun _ => .inr ?_
    have hplace := hk k rfl
    cases k with
    | caller | ignored | release => cases hplace
    | closer => exact .inl (hc Nat.one_pos)
    | inValue | inDone | inError | inRejected =>
      refine .inr (Nat.lt_of_lt_of_le ?_ hp)
      simp only [refs, RunReturn.refs]
      omega
  case closeDestroy => exact fun _ => .inl rfl
  case admitPump => exact fun _ => .inr (.inr (Nat.succ_pos _))
  case releaseRejectedDestroys hd | releasePostingDestroys hd | releaseTaskDestroys hd =>
    rw [releaseTaskRef_destroying hd]
    exact fun _ => .inl rfl
  case releaseRejected hd | releasePosting hd | releaseTask hd =>
    intro hclose
    have hclose : r.closeRequested = true := hclose
    by_cases hlast : r.taskRefs - 1 = 0
    · -- the last reference is released without a destroy: somebody else has that duty
      rw [releaseTaskRef_keeps hd]
      by_cases hz : r.freed = 0
      · have : r.externalCloser = true ∨ r.destroying = true := by
          simp only [RunImpl.releaseTaskRef, hlast, hclose, hz] at hd
          cases he : r.externalCloser <;> cases hx : r.destroying <;> simp [he, hx] at hd ⊢
        exact this.symm.imp_right .inl
      · exact .inl (hf hz)
    · exact .inr (.inr (Nat.pos_of_ne_zero hlast))
  all_goals exact hr

theorem RunMove.destroys_balance (hc : p.claims = 1 → r.destroying = false) :
    q.destroys + load destroys new + t.freed + r.destroying.toNat =
      p.destroys + r.freed + t.destroying.toNat := by
  cases h
  case closeDestroy => simp [destroys, hc rfl]; omega
  case releaseRejectedDestroys hd | releasePostingDestroys hd | releaseTaskDestroys hd =>
    obtain ⟨-,-,-,-,hx⟩ := releaseTaskRef_destroys hd
    rw [releaseTaskRef_destroying hd]
    simp [destroys, hx]
    omega
  case releaseRejected hd | releasePosting hd | releaseTask hd =>
    rw [releaseTaskRef_keeps hd]
    simp only [weights_back]
    simp [destroys]
  all_goals try simp only [weights_back, weights_loop]
  all_goals simp [destroys]
  all_goals omega

theorem RunMove.monotone :
    (r.terminated = true → t.terminated = true) ∧
      (r.closeRequested = true → t.closeRequested = true) ∧
      (r.destroying = true → t.destroying = true) ∧ r.freed ≤ t.freed := by
  cases h <;> simp_all

theorem RunMove.marked_closeRequested (hp : p.marked = true → r.closeRequested = true) :
    q.marked = true → t.closeRequested = true := by
  cases h
  case markAgain hc => exact fun _ => hc
  case mark => exact fun _ => rfl
  all_goals try simp only [closing_back, closing_loop]
  all_goals simp_all [marked, closers, RunReturn.closers]

theorem RunMove.told_terminated (hp : p.told = true → r.terminated = true) :
    q.told = true → t.terminated = true := by
  cases h
  all_goals try simp only [closing_back, closing_loop]
  all_goals simp_all [told, RunReturn.told]

theorem RunMove.places : ∀ k, q = .closeMark k → k.closes = true := by
  cases h
  case cancelEnds k _ | markAgain k _ | unposted k _ | releasePosting k _ =>
    intro k' hk'
    cases k <;> cases hk'
  case unitLoop next _ _ | failEnded next _ | inError next =>
    intro k' hk'
    cases next <;> cases hk'
  all_goals
    intro k' hk'
    cases hk'
  all_goals rfl

theorem RunMove.closed_destroying : t.closed = r.closed ∨ p.destroys = 1 := by
  cases h
  case destroy => exact .inr rfl
  all_goals exact .inl rfl

theorem RunMove.returned (hq : q = .closeReturned) :
    (r.freed ≠ 0 ∧ t.freed = r.freed) ∨ (p.destroys = 1 ∧ t.freed = r.freed + 1) := by
  cases h
  case claimEnds hf => exact .inl ⟨hf,rfl⟩
  case freeExternal => exact .inr ⟨rfl,rfl⟩
  case cancelEnds k _ | markAgain k _ | unposted k _ | releasePosting k _ => cases k <;> cases hq
  case unitLoop next _ _ | failEnded next _ | inError next => cases next <;> cases hq
  all_goals cases hq

theorem RunMove.freed_eq : t.freed = r.freed ∨ p.destroys = 1 := by
  cases h
  case freeExternal | freeReleased => exact .inr rfl
  all_goals exact .inl rfl

theorem RunMove.destroying_closeRequested (hp : p.marked = true → r.closeRequested = true)
    (hr : r.destroying = true → r.closeRequested = true) :
    t.destroying = true → t.closeRequested = true := by
  cases h
  case closeDestroy => exact fun _ => hp rfl
  case releaseRejectedDestroys hd | releasePostingDestroys hd | releaseTaskDestroys hd =>
    exact fun _ => (releaseTaskRef_destroys hd).2.1
  case releaseRejected hd | releasePosting hd | releaseTask hd =>
    rw [releaseTaskRef_keeps hd]
    exact hr
  case mark => exact fun _ => rfl
  all_goals exact hr

end

end Moves

namespace CloseInv

variable {P : Plane δ α ε} {s : RunSystem δ α ε} {t : RunImpl δ α} {p q : RunPoint α ε}
  {new : List (RunPoint α ε)} {i : Nat}

theorem subscribed (h : Subscribed s) : CloseInv s := by
  obtain ⟨shared,threads⟩ := s
  obtain ⟨rfl,d,rfl⟩ := h
  constructor <;> simp

section

variable (h : CloseInv s)

include h

theorem freed_le : s.shared.freed ≤ 1 := by
  have := h.destroys
  have := Bool.toNat_le s.shared.destroying
  omega

theorem closers_move (hp : s.threads[i]? = some p) (hm : RunMove P s.shared p t q new) :
    load RunPoint.closers (s.threads.set i q ++ new) + t.destroying.toNat ≤ 1 ∧
      (t.externalCloser = false → load RunPoint.closers (s.threads.set i q ++ new) = 0) ∧
      (t.externalCloser = true →
        load RunPoint.closers (s.threads.set i q ++ new) + t.destroying.toNat = 1) := by
  have hl := load_step (w := RunPoint.closers) q new hp
  have hc := h.closers
  rcases hm.closers_cases with ⟨hq,hn,hd,he⟩ | ⟨hp0,hq,rfl,he,het,hd,hdt⟩ |
    ⟨hp1,hq,rfl,hd,he⟩ | ⟨hq,rfl,he,hd,hdt,het⟩
  · rw [hd, he]
    have hno := h.claimed
    have hyes := h.claimer
    exact ⟨by omega,fun hx => by have := hno hx; omega,fun hx => by have := hyes hx; omega⟩
  · have := h.claimed he
    simp only [load_nil, hdt, het, Bool.toNat_false] at hl ⊢
    exact ⟨by omega,by simp,fun _ => by omega⟩
  · simp only [load_nil, hd, Bool.toNat_true] at hl ⊢
    exact ⟨by omega,fun _ => by omega,fun _ => by omega⟩
  · have := h.claimed he
    simp only [load_nil, hdt, Bool.toNat_true] at hl ⊢
    exact ⟨by omega,fun _ => by omega,by simp [het]⟩

theorem claims_destroying (hp : p ∈ s.threads) (hc : p.claims = 1) :
    s.shared.destroying = false := by
  have hcl : p.closers = 1 := by cases p <;> simp_all [RunPoint.claims, RunPoint.closers]
  have := weight_le_load (w := RunPoint.closers) hp
  have := h.closers
  cases hd : s.shared.destroying
  · rfl
  · simp only [hd, Bool.toNat_true] at this
    omega

theorem freed_destroying (hf : s.shared.freed ≠ 0) : s.shared.destroying = true := by
  have := h.destroys
  exact flag_of_pos (by omega)

theorem move (hr : RunInv s) (hp : s.threads[i]? = some p) (hm : RunMove P s.shared p t q new) :
    CloseInv { shared := t, threads := s.threads.set i q ++ new } := by
  have hmem := List.mem_of_getElem? hp
  have hdest := h.destroys
  have hone := Bool.toNat_le s.shared.destroying
  have hpd := weight_le_load (w := RunPoint.destroys) hmem
  obtain ⟨hle,hno,hyes⟩ := h.closers_move hp hm
  refine ⟨hle,hno,hyes,?_,?_,?_,?_,?_,?_,?_,?_⟩
  · have hrefs := weight_le_load (w := RunPoint.refs) hmem
    have hclosers := weight_le_load (w := RunPoint.closers) hmem
    refine hm.kept (h.places p hmem) (fun hpos => ?_) (hr.refs ▸ hrefs) h.freed_destroying h.kept
    by_contra hne
    have := h.claimed (by simpa using hne)
    omega
  · have hb := hm.destroys_balance (h.claims_destroying hmem)
    have hl := load_step (w := RunPoint.destroys) q new hp
    show load RunPoint.destroys (s.threads.set i q ++ new)+t.freed = t.destroying.toNat
    omega
  · refine hm.forall_threads (T := fun r p => p.marked = true → r.closeRequested = true) h.marked
      (hm.marked_closeRequested (h.marked p hmem)) (fun g hmk => ?_) ?_
    · cases hmk
    · exact fun j x _ _ hx hmk => hm.monotone.2.1 (hx hmk)
  · exact hm.destroying_closeRequested (h.marked p hmem) h.destroying
  · intro hc
    rcases hm.closed_destroying with heq | h1
    · exact hm.monotone.2.2.1 (h.closed (heq ▸ hc))
    exact hm.monotone.2.2.1 (flag_of_pos (by omega))
  · -- a close returns when the run is freed, and a freed run is not freed again
    refine fun hr => hm.forall_threads (T := fun r p => p = .closeReturned → r.freed = 1)
      (fun p hp he => h.returned (he ▸ hp)) ?_ (fun g he => ?_) ?_ _ hr rfl
    · intro hq
      show t.freed = 1
      rcases hm.returned hq with ⟨hf,ht⟩ | ⟨h1,ht⟩ <;> omega
    · cases he
    · intro j x _ _ hx he
      have hf := hx he
      show t.freed = 1
      rcases hm.freed_eq with heq | h1 <;> omega
  · refine hm.forall_threads (T := fun r p => p.told = true → r.terminated = true) h.told
      (hm.told_terminated (h.told p hmem)) (fun g ht => ?_) ?_
    · cases ht
    · exact fun j x _ _ hx ht => hm.monotone.1 (hx ht)
  · refine hm.forall_threads (T := fun _ p => ∀ k, p = .closeMark k → k.closes = true) h.places
      hm.places (fun g k hk => ?_) (fun _ _ _ _ hx => hx)
    cases hk

theorem enter (hp : p.entry = true) :
    CloseInv { shared := s.shared, threads := s.threads ++ [p] } := by
  have hw : p.closers = 0 ∧ p.destroys = 0 ∧ p.marked = false ∧ p.told = false ∧
      p ≠ .closeReturned ∧ ∀ k, p ≠ .closeMark k := by
    rcases entry_cases hp with ⟨n,rfl⟩ | rfl | ⟨e,rfl⟩ | rfl | rfl <;>
      exact ⟨rfl,rfl,rfl,rfl,by simp,by simp⟩
  obtain ⟨hc,hd,hmk,ht,hr,hpl⟩ := hw
  refine ⟨?_,?_,?_,h.kept,?_,?_,h.destroying,h.closed,?_,?_,?_⟩
  · simpa [hc] using h.closers
  · simpa [hc] using h.claimed
  · simpa [hc] using h.claimer
  · simpa [hd] using h.destroys
  · simpa [or_imp, forall_and, hmk] using h.marked
  · simpa [hr.symm] using h.returned
  · simpa [or_imp, forall_and, ht] using h.told
  · simpa [or_imp, forall_and, hpl] using h.places

end

end CloseInv

end Salts.CFlow
