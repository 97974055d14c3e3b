import Salts.CFlowRunClose

/-!
A closed subscription is destroyed with nothing outstanding, in every interleaving in which a
requested cancellation reaches the run.
-/

namespace Salts.CFlow

open ThreadPool RunImpl Transition
open RunPoint
open RunImpl

variable {δ α ε : Type}

/-- The move loses a cancellation that is requested: its pump is not posted, or the pump arms a
waitable that the request can no longer take back. -/
def cancelLost (r : RunImpl δ α) : RunPoint α ε → Bool
  | .rejected _ _ _ => r.cancelRequested && !r.terminated
  | .schedule _ _ _ => r.cancelRequested && r.admits && r.exhausted
  | .arm _ => r.cancelRequested
  | _ => false

def CancelSettles (s : RunSystem δ α ε) (a : RunAction α ε) : Prop :=
  avoids (fun s p => cancelLost s.shared p) s a

instance (s : RunSystem δ α ε) (a : RunAction α ε) : Decidable (CancelSettles s a) :=
  inferInstanceAs (Decidable (avoids _ s a))

/-- A closed run that has not ended still has somebody who will end it, and a run that is destroyed
has ended and has no reference left. -/
structure SettleInv (s : RunSystem δ α ε) : Prop where
  owed : s.shared.closeRequested = true → s.shared.terminated = false →
    s.shared.pumpRunning = true ∨ s.shared.taskScheduled = true ∨ 0 < load owes s.threads
  asked : s.shared.closeRequested = true → s.shared.terminated = false →
    s.shared.cancelRequested = true ∨ 0 < load cancels s.threads
  calm : s.shared.cancelRequested = true → s.shared.waiting = false
  idle : s.shared.destroying = true ∨ 0 < load claims s.threads →
    s.shared.terminated = true ∧ s.shared.taskRefs = 0

namespace RunPoint

section

variable (p : RunPoint α ε)

theorem posts_le_refs : p.posts ≤ p.refs := by
  cases p <;> simp [posts, refs] <;> omega

theorem pumps_le_refs : p.pumps ≤ p.refs := by
  cases p
  case cancel k | closeMark k | schedule k | posting k | accepted k | rejected k |
      notifyRejected k | inRejected k | releaseRejected k | releasePosting k =>
    have := k.pumps_le_refs
    simp only [pumps, refs]
    omega
  all_goals simp [pumps, refs]

theorem holds_le_refs : p.holds ≤ p.refs := by
  cases p <;> simp [holds, carries, refs] <;> omega

theorem owes_le : p.owes + p.claims ≤ p.refs + p.closers := by
  cases p
  case schedule k | cancel k =>
    cases k <;> simp [owes, claims, refs, closers, RunReturn.refs, RunReturn.closers]
  all_goals simp [owes, claims, closers]

end

end RunPoint

section Moves

variable {P : Plane δ α ε} {r t : RunImpl δ α} {p q : RunPoint α ε} {new : List (RunPoint α ε)}

attribute [local simp] takeTaskRefs joinScheduled releaseTaskRef rejectPost RunImpl.takeCancel
  clearScheduledTask failStatus addDemand

theorem RunMove.calm (h : RunMove P r p t q new) (hl : cancelLost r p = false)
    (hc : r.cancelRequested = true → r.waiting = false) :
    t.cancelRequested = true → t.waiting = false := by
  cases h <;> simp_all [cancelLost]

theorem RunMove.asked_cases (h : RunMove P r p t q new)
    (hk : ∀ k, p = .closeMark k → k.closes = true) :
    (q.cancels = p.cancels ∧ t.cancelRequested = r.cancelRequested ∧
      t.closeRequested = r.closeRequested) ∨
    t.cancelRequested = true ∨ t.terminated = true ∨ q.cancels = 1 ∨ r.freed ≠ 0 := by
  cases h
  case cancelEnds hf => exact .inr (.inr (.inr (.inr hf)))
  case cancel => exact .inr (.inl rfl)
  case mark k _ => exact .inr (.inr (.inr (.inl (by simp [cancels, hk k rfl]))))
  case takeCancel | taskCancelled => exact .inr (.inr (.inl rfl))
  all_goals refine .inl ⟨?_,rfl,rfl⟩
  all_goals try simp only [closing_back, closing_loop]
  all_goals rfl

theorem RunMove.open_before (h : RunMove P r p t q new) (ht : t.terminated = false) :
    r.terminated = false := by
  by_contra hne
  rw [h.monotone.1 (by simpa using hne)] at ht
  cases ht

theorem runnable_of_cancelRequested (h : r.cancelRequested = true) : r.runnable P = true := by
  simp [runnable, h]

/-- A move that leaves a closed run without pump, task and anybody to schedule one does so while no
cancellation is requested, or it is the request to close itself. -/
theorem RunMove.owed_cases (h : RunMove P r p t q new) (hl : cancelLost r p = false)
    (hc : r.cancelRequested = true → r.waiting = false)
    (hd : r.closed = true → r.terminated = true) (hf : r.freed ≠ 0 → r.terminated = true) :
    (t.terminated = true ∨ t.pumpRunning = true ∨ t.taskScheduled = true ∨ 0 < q.owes) ∨
      (∃ k, p = .closeMark k ∧ q = .cancel k ∧ t.pumpRunning = r.pumpRunning) ∨
      (t.pumpRunning = r.pumpRunning ∧ t.taskScheduled = r.taskScheduled ∧ q.owes = p.owes ∧
        t.closeRequested = r.closeRequested) ∨
      (r.cancelRequested = false ∧ p.cancels = 0 ∧ t.closeRequested = r.closeRequested ∧
        (t.pumpRunning = r.pumpRunning ∨ p.pumps = 1)) := by
  cases h
  case mark k _ => exact .inr (.inl ⟨k,rfl,rfl,rfl⟩)
  case cancelEnds hz => exact .inl (.inl (hf hz))
  case cancel k =>
    cases k
    case release | closer => exact .inl (.inr (.inr (.inr Nat.one_pos)))
    all_goals exact .inr (.inr (.inl ⟨rfl,rfl,rfl,rfl⟩))
  case admitPump => exact .inl (.inr (.inr (.inl rfl)))
  case unposted k ha =>
    by_cases hq : r.cancelRequested = true
    · -- the request is not lost, so the pump is running or posted, or the run has ended
      have hw := hc hq
      refine .inl ?_
      have hadm : r.admits = false := by
        rcases ha with ha | hx
        · exact ha
        · simpa [cancelLost, hq, hx] using hl
      cases ht : r.terminated
      · have hcl : r.closed = false := by
          by_contra h1
          simp_all
        cases hp : r.pumpRunning
        · refine .inr (.inr (.inl ?_))
          show r.taskScheduled = true
          simpa [RunImpl.admits, hcl, ht, hp, hw] using hadm
        · exact .inr (.inl hp)
      · exact .inl ht
    · exact .inr (.inr (.inr ⟨by simpa using hq,rfl,rfl,.inl rfl⟩))
  case rejected generation result k hrf =>
    cases ht : r.terminated
    · refine .inr (.inr (.inr ⟨?_,rfl,rfl,.inl rfl⟩))
      simpa [cancelLost, ht] using hl
    · exact .inl (.inl (by simp [ht]))
  case rejectedFails hrf => exact .inl (.inl (by simp [hrf]))
  case task => exact .inl (.inr (.inl rfl))
  case taskEnded ht => exact .inl (.inl ht)
  case taskCancelled | takeCancel | fail | finish => exact .inl (.inl rfl)
  case tailSchedules => exact .inl (.inr (.inr (.inr Nat.one_pos)))
  case tailEnds he =>
    rcases he with ht | hrest
    · exact .inl (.inl ht)
    refine .inr (.inr (.inr ⟨?_,rfl,rfl,.inr rfl⟩))
    by_contra hq
    have hq : r.cancelRequested = true := by simpa using hq
    simp [hc hq, runnable_of_cancelRequested hq] at hrest
  all_goals refine .inr (.inr (.inl ⟨rfl,rfl,?_,rfl⟩))
  all_goals try simp only [closing_back, closing_loop]
  all_goals rfl

theorem RunMove.idle_cases (h : RunMove P r p t q new) :
    (t.destroying = true → r.destroying = true ∨ p.claims = 1 ∨
      (t.taskRefs = 0 ∧ t.externalCloser = false ∧ t.closeRequested = true)) ∧
    (q.claims = p.claims ∨ q.claims = 0 ∨ (q.claims = 1 ∧ t.taskRefs = 0)) := by
  cases h
  case closeWait hr => exact ⟨fun h => .inl h,.inr (.inr ⟨rfl,hr⟩)⟩
  case closeDestroy => exact ⟨fun _ => .inr (.inl rfl),.inr (.inl rfl)⟩
  case releaseRejectedDestroys hd | releasePostingDestroys hd | releaseTaskDestroys hd =>
    obtain ⟨hr,hcl,-,he,-⟩ := releaseTaskRef_destroys hd
    exact ⟨fun _ => .inr (.inr ⟨hr,he,hcl⟩),.inl rfl⟩
  case releaseRejected hd | releaseTask hd =>
    rw [releaseTaskRef_keeps hd]
    exact ⟨fun h => .inl h,.inl rfl⟩
  case releasePosting k hd =>
    rw [releaseTaskRef_keeps hd]
    exact ⟨fun h => .inl h,.inl (by cases k <;> rfl)⟩
  case cancelEnds k _ | markAgain k _ | unposted k _ =>
    exact ⟨fun h => .inl h,.inl (by cases k <;> rfl)⟩
  case unitLoop next _ _ | failEnded next _ | inError next =>
    exact ⟨fun h => .inl h,.inl (by cases next <;> rfl)⟩
  all_goals exact ⟨fun h => .inl h,.inl rfl⟩

theorem RunMove.refs_le (h : RunMove P r p t q new) (ht : r.terminated = true) :
    t.taskRefs ≤ r.taskRefs := by
  cases h
  case admitPump ha => simp [(admits_iff.1 ha).2.1] at ht
  all_goals simp

end Moves

variable {s : RunSystem δ α ε}

theorem terminated_of_unreferenced (hr : RunInv s) (hc : CloseInv s)
    (howed : s.shared.closeRequested = true → s.shared.terminated = false →
      s.shared.pumpRunning = true ∨ s.shared.taskScheduled = true ∨
        0 < load owes s.threads)
    (hclose : s.shared.closeRequested = true) (hz : s.shared.taskRefs = 0)
    (hx : s.shared.externalCloser = false ∨ 0 < load claims s.threads) :
    s.shared.terminated = true := by
  by_contra hne
  have hrefs : load refs s.threads = 0 := hr.refs ▸ hz
  have hpumps : load pumps s.threads ≤ load refs s.threads :=
    load_le_load fun p _ => p.pumps_le_refs
  have hholds : load holds s.threads ≤ load refs s.threads :=
    load_le_load fun p _ => p.holds_le_refs
  have howes : load owes s.threads+load claims s.threads ≤
      load refs s.threads+load closers s.threads := by
    rw [← load_add, ← load_add]
    exact load_le_load fun p _ => p.owes_le
  have hclosers := hc.closers
  rcases howed hclose (by simpa using hne) with hp | ht | ho
  · have := hr.pump
    simp only [hp, Bool.toNat_true] at this
    omega
  · have := hr.scheduled
    simp only [ht, Bool.toNat_true] at this
    omega
  · rcases hx with he | hcl
    · have := hc.claimed he
      omega
    · omega

namespace SettleInv

variable {P : Plane δ α ε} {s : RunSystem δ α ε} {t : RunImpl δ α} {p q : RunPoint α ε}
  {new : List (RunPoint α ε)} {i : Nat}

theorem subscribed (h : Subscribed s) : SettleInv s := by
  obtain ⟨shared,threads⟩ := s
  obtain ⟨rfl,d,rfl⟩ := h
  constructor <;> simp

section

variable (h : SettleInv s)

include h

/-- The close of a run that is not asked to cancel is about to ask: it is an external closer, or
made in a value callback. -/
theorem closing (hc : CloseInv s) (hclose : s.shared.closeRequested = true)
    (ht : s.shared.terminated = false) (hq : s.shared.cancelRequested = false) :
    ∃ x ∈ s.threads, x.cancels = 1 ∧ (x.owes = 1 ∨ x.pumps = 1) := by
  rcases h.asked hclose ht with hreq | hload
  · simp [hq] at hreq
  obtain ⟨x,hx,hpos⟩ := exists_of_load_pos hload
  refine ⟨x,hx,?_⟩
  have htold := hc.told x hx
  cases x with
  | cancel k =>
    cases k <;>
      simp_all [cancels, RunReturn.closes, told, RunReturn.told, owes, pumps, RunReturn.pumps]
  | _ => simp [cancels] at hpos

theorem owed_move (hr : RunInv s) (hc : CloseInv s) (hp : s.threads[i]? = some p)
    (hm : RunMove P s.shared p t q new) (hl : cancelLost s.shared p = false)
    (hclose : t.closeRequested = true) (ht : t.terminated = false) :
    t.pumpRunning = true ∨ t.taskScheduled = true ∨ 0 < load owes (s.threads.set i q ++ new) := by
  have hmem := List.mem_of_getElem? hp
  have hopen := hm.open_before ht
  have hload := load_step (w := owes) q new hp
  have hle := weight_le_load (w := owes) hmem
  have hnd : s.shared.destroying = false := by
    by_contra hne
    rw [(h.idle (.inl (by simpa using hne))).1] at hopen
    cases hopen
  have hfreed : s.shared.freed = 0 := by
    by_contra hne
    rw [hc.freed_destroying hne] at hnd
    cases hnd
  have hclosed : s.shared.closed = true → s.shared.terminated = true := fun hx => by
    rw [hc.closed hx] at hnd
    cases hnd
  rcases hm.owed_cases hl h.calm hclosed (fun hx => absurd hfreed hx) with
    hdone | ⟨k,rfl,rfl,hpump⟩ | ⟨hpump,htask,howes,hreq⟩ | ⟨hq,hcan,hreq,hpump⟩
  · rcases hdone with hx | hx | hx | hx
    · rw [ht] at hx
      cases hx
    · exact .inl hx
    · exact .inr (.inl hx)
    · exact .inr (.inr (by omega))
  · -- the request to close: it is made by an external closer or in a callback
    have hplace := hc.places _ hmem k rfl
    have htold := hc.told _ hmem
    have hpumps := weight_le_load (w := pumps) hmem
    rw [← hr.pump] at hpumps
    have hq : (cancel k : RunPoint α ε).owes ≤
        load owes (s.threads.set i (.cancel k) ++ new) := weight_le_load (mem_moved hp)
    cases k with
    | caller | ignored | release => cases hplace
    | closer => exact .inr (.inr (Nat.lt_of_lt_of_le Nat.one_pos hq))
    | inValue n =>
      exact .inl (hpump ▸ flag_of_pos hpumps)
    | inDone | inError | inRejected =>
      rw [htold rfl] at hopen
      cases hopen
  · rcases h.owed (hreq ▸ hclose) hopen with hx | hx | hx
    · exact .inl (hpump ▸ hx)
    · exact .inr (.inl (htask ▸ hx))
    · exact .inr (.inr (by omega))
  · -- nobody has asked for the cancellation yet, so another thread is about to
    obtain ⟨x,hx,hone,hway⟩ := h.closing hc (hreq ▸ hclose) hopen hq
    obtain ⟨j,hj⟩ := List.getElem?_of_mem hx
    have hij : j ≠ i := by
      rintro rfl
      rw [hj, Option.some.injEq] at hp
      subst hp
      omega
    rcases hway with ho | hb
    · have : x.owes ≤ load owes (s.threads.set i q ++ new) := weight_le_load (mem_other hj hij)
      exact .inr (.inr (by omega))
    · have hrun := weight_le_load (w := pumps) hx
      rw [← hr.pump] at hrun
      rcases hpump with heq | hbody
      · exact .inl (heq ▸ flag_of_pos (by omega))
      · have := hr.other_pumps hp (.inl hbody) hj hij
        omega

theorem asked_move (hc : CloseInv s) (hp : s.threads[i]? = some p)
    (hm : RunMove P s.shared p t q new) (hclose : t.closeRequested = true)
    (ht : t.terminated = false) :
    t.cancelRequested = true ∨ 0 < load cancels (s.threads.set i q ++ new) := by
  have hmem := List.mem_of_getElem? hp
  have hopen := hm.open_before ht
  have hload := load_step (w := cancels) q new hp
  rcases hm.asked_cases (hc.places p hmem) with ⟨hq,hreq,hcl⟩ | hreq | hx | hone | hf
  · rcases h.asked (hcl ▸ hclose) hopen with hx | hx
    · exact .inl (hreq ▸ hx)
    · exact .inr (by omega)
  · exact .inl hreq
  · rw [ht] at hx
    cases hx
  · have : q.cancels ≤ load cancels (s.threads.set i q ++ new) := weight_le_load (mem_moved hp)
    exact .inr (by omega)
  · rw [(h.idle (.inl (hc.freed_destroying hf))).1] at hopen
    cases hopen

theorem move (hr : RunInv s) (hc : CloseInv s) (hp : s.threads[i]? = some p)
    (hm : RunMove P s.shared p t q new) (hl : cancelLost s.shared p = false) :
    SettleInv { shared := t, threads := s.threads.set i q ++ new } := by
  have hmem := List.mem_of_getElem? hp
  have howed := h.owed_move hr hc hp hm hl
  refine ⟨howed,h.asked_move hc hp hm,hm.calm hl h.calm,?_⟩
  have hnew : load claims new = 0 := by
    by_contra hne
    obtain ⟨x,hx,hpos⟩ := exists_of_load_pos (Nat.pos_of_ne_zero hne)
    obtain ⟨g,rfl⟩ := hm.started_task x hx
    cases hpos
  have hload := load_step (w := claims) q new hp
  have hle := weight_le_load (w := claims) hmem
  have hr' := hr.move hp hm
  have hc' := hc.move hr hp hm
  -- either the run was idle before, or this move is the one that found no reference
  have hkeep : s.shared.destroying = true ∨ 0 < load claims s.threads →
      t.terminated = true ∧ t.taskRefs = 0 := by
    intro hold
    obtain ⟨hterm,hz⟩ := h.idle hold
    have := hm.refs_le hterm
    exact ⟨hm.monotone.1 hterm,by omega⟩
  obtain ⟨hdest,hclaim⟩ := hm.idle_cases
  rintro (hd | hload')
  · rcases hdest hd with hx | hx | ⟨hz,he,hcl⟩
    · exact hkeep (.inl hx)
    · exact hkeep (.inr (by omega))
    · exact ⟨terminated_of_unreferenced hr' hc' howed hcl hz (.inl he),hz⟩
  · by_cases hold : 0 < load claims s.threads
    · exact hkeep (.inr hold)
    have hload'' : 0 < load claims (s.threads.set i q ++ new) := hload'
    rcases hclaim with hx | hx | ⟨hx,hz⟩
    · omega
    · omega
    have hq : q.marked = true := by
      cases q <;> simp_all [claims, marked, closers]
    have hcl := hc'.marked q (mem_moved hp) hq
    exact ⟨terminated_of_unreferenced hr' hc' howed hcl hz (.inr hload'),hz⟩

theorem enter (hp : p.entry = true) :
    SettleInv { shared := s.shared, threads := s.threads ++ [p] } := by
  have hw : p.owes = 0 ∧ p.cancels = 0 ∧ p.claims = 0 := by
    rcases entry_cases hp with ⟨n,rfl⟩ | rfl | ⟨e,rfl⟩ | rfl | rfl <;>
      exact ⟨rfl,rfl,rfl⟩
  obtain ⟨ho,hca,hcl⟩ := hw
  refine ⟨?_,?_,h.calm,?_⟩
  · simpa [ho] using h.owed
  · simpa [hca] using h.asked
  · simpa [hcl] using h.idle

end

end SettleInv

variable {P : Plane δ α ε} {ok : RunSystem δ α ε → RunAction α ε → Prop}

/-- What holds of a subscription and is kept by moves and entries holds along every run. -/
theorem run_invariant {init I : RunSystem δ α ε → Prop} (h : Reach (runStep P) init ok s)
    (hinit : ∀ s, init s → Subscribed s ∧ I s)
    (hmove : ∀ {s i c p t q new}, RunInv s → CloseInv s → I s → ok s (.run i c) →
      s.threads[i]? = some p → RunMove P s.shared p t q new →
      I { shared := t, threads := s.threads.set i q ++ new })
    (henter : ∀ {s p}, I s → p.entry = true →
      I { shared := s.shared, threads := s.threads ++ [p] }) : I s := by
  refine (h.invariant (I := fun s => RunInv s ∧ CloseInv s ∧ I s) (fun s hs => ?_) ?_).2.2
  · obtain ⟨hsub,hi⟩ := hinit s hs
    exact ⟨.subscribed hsub,.subscribed hsub,hi⟩
  rintro s a u ⟨hr,hc,hi⟩ hok hs
  rcases step_cases hs with ⟨i,c,p,t,q,new,rfl,hp,hm,rfl⟩ | ⟨p,-,hp,rfl⟩
  · have hm := RunMove.of_move hm
    exact ⟨hr.move hp hm,hc.move hr hp hm,hmove hr hc hi hok hp hm⟩
  · exact ⟨hr.enter hp,hc.enter hp,henter hi hp⟩

theorem run_invariants (h : Reach (runStep P) Subscribed ok s) : RunInv s ∧ CloseInv s :=
  run_invariant (I := fun s => RunInv s ∧ CloseInv s) h
    (fun _ hs => ⟨hs,.subscribed hs,.subscribed hs⟩) (fun hr hc _ _ hp hm => ⟨hr.move hp hm,hc.move hr hp hm⟩)
    fun hi hp => ⟨hi.1.enter hp,hi.2.enter hp⟩

theorem settle_invariant (h : Reach (runStep P) Subscribed CancelSettles s) : SettleInv s :=
  run_invariant h (fun _ hs => ⟨hs,.subscribed hs⟩)
    (fun hr hc hi hok hp hm => hi.move hr hc hp hm (avoids_run hok hp)) fun hi hp => hi.enter hp

def RunPoint.through : RunPoint α ε → Bool
  | .closeReturned => true
  | .finished _ => true
  | _ => false

theorem load_through {w : RunPoint α ε → Nat} (hw : ∀ p, p.through = true → w p = 0)
    (h : ∀ p ∈ s.threads, p.through = true) : load w s.threads = 0 := by
  by_contra hne
  obtain ⟨p,hp,hpos⟩ := exists_of_load_pos (Nat.pos_of_ne_zero hne)
  exact absurd (hw p (h p hp)) hpos.ne'

theorem freed_of_through (hr : RunInv s) (hc : CloseInv s) (hclose : s.shared.closeRequested = true)
    (h : ∀ p ∈ s.threads, p.through = true) : s.shared.freed = 1 := by
  have hclosers : load closers s.threads = 0 :=
    load_through (fun p hp => by cases p <;> first | rfl | cases hp) h
  have hdestroys : load destroys s.threads = 0 :=
    load_through (fun p hp => by cases p <;> first | rfl | cases hp) h
  have hrefs : load refs s.threads = 0 :=
    load_through (fun p hp => by cases p <;> first | rfl | cases hp) h
  have hd : s.shared.destroying.toNat = 1 := by
    rcases hc.kept hclose with hd | he | hpos
    · rw [hd, Bool.toNat_true]
    · have := hc.claimer he
      omega
    · rw [hr.refs, hrefs] at hpos
      cases hpos
  have := hc.destroys
  omega

/-- In every interleaving all events of the sink but the last are values, the run is freed at most
once, a close from outside returns when it is freed, and a run that was asked to close is freed when
all its threads are through.  Where no cancellation is lost, a run that is being destroyed has no
task and no posting reference. -/
theorem subscription_destroyed_unreferenced (P : Plane δ α ε) (s : RunSystem δ α ε)
    (h : Reach (runStep P) Subscribed anyAction s) :
    ((∀ e ∈ s.shared.log.dropLast, e.ends = false) ∧ s.shared.freed ≤ 1 ∧
      (.closeReturned ∈ s.threads → s.shared.freed = 1) ∧
      (s.shared.closeRequested = true → (∀ p ∈ s.threads, p.through = true) →
        s.shared.freed = 1)) ∧
    (Reach (runStep P) Subscribed CancelSettles s →
      s.shared.destroying = true ∨ 0 < s.shared.freed →
        s.shared.taskRefs = 0 ∧ s.shared.taskPosting = 0) := by
  obtain ⟨hr,hc⟩ := run_invariants h
  refine ⟨⟨hr.values,hc.freed_le,hc.returned,freed_of_through hr hc⟩,fun hg hd => ?_⟩
  have hdest := hd.elim id fun hf => hc.freed_destroying hf.ne'
  obtain ⟨-,hz⟩ := (settle_invariant hg).idle (.inl hdest)
  have hposts : load posts s.threads ≤ load refs s.threads :=
    load_le_load fun p _ => p.posts_le_refs
  rw [← hr.refs, ← hr.posting] at hposts
  exact ⟨hz,by omega⟩

def channelRun : RunSystem (ChannelSource Nat) Nat (ChannelEvent Nat) :=
  { shared := { plane := { channel := { capacity := 4 } } }, threads := [] }

theorem channelRun_subscribed : Subscribed channelRun := ⟨rfl,_,rfl⟩

def closesOnce : List (RunAction Nat (ChannelEvent Nat)) :=
  [.enter .closeClaim] ++ List.replicate 5 (.run 0 .go) ++ [.run 0 .go, .run 0 .go] ++
    List.replicate 5 (.run 1 .go) ++ List.replicate 4 (.run 0 .go)

/-- The close frees the run, with nothing outstanding. -/
theorem closesOnce_unreferenced :
    ∃ s, exec (runStep ChannelSource.plane) channelRun closesOnce = some s ∧
      (s.shared.closeRequested = true ∧ ∀ p ∈ s.threads, p.through = true) ∧
      s.shared.freed = 1 ∧ s.shared.taskRefs = 0 ∧ s.shared.taskPosting = 0 := by
  refine exec_shows_and (by decide +kernel) fun s hs h => ?_
  have hg : Reach (runStep ChannelSource.plane) Subscribed CancelSettles s :=
    .exec_admits (.start channelRun_subscribed) (by decide +kernel) hs
  have hall := subscription_destroyed_unreferenced _ s (hg.mono fun _ _ _ => trivial)
  have hf := hall.1.2.2.2 h.1 h.2
  exact ⟨hf,hall.2 hg (.inr (by omega))⟩

/-- The pump of the close is refused, so the close finds no reference; a wake posts another one
before the run is freed. -/
def wakesWhileDestroyed : List (RunAction Nat (ChannelEvent Nat)) :=
  [.enter .closeClaim] ++ List.replicate 4 (.run 0 .go) ++ [.run 0 (.reject .full)] ++
    List.replicate 4 (.run 0 .go) ++ [.enter .wake, .run 1 .go, .run 1 .go] ++
    List.replicate 3 (.run 0 .go)

theorem wake_references_freed_run :
    ∃ s : RunSystem (ChannelSource Nat) Nat (ChannelEvent Nat),
      Reach (runStep ChannelSource.plane) Subscribed anyAction s ∧ s.shared.freed = 1 ∧
      s.shared.taskRefs = 2 ∧ s.shared.taskPosting = 1 :=
  exec_shows (runStep ChannelSource.plane) channelRun wakesWhileDestroyed (by decide +kernel) fun _ =>
    Reach.exec (.start channelRun_subscribed) fun _ _ _ => trivial

/-! ### The terminal a sink is told is the one the run records -/

def RunImpl.outcome (r : RunImpl δ α) : SinkEvent α :=
  if r.cancelled then .cancelled
  else match r.error with
    | some message => .error message
    | none => .done

def RunPoint.tells : RunPoint α ε → Option (SinkEvent α)
  | .notifyRejected message _ _ => some (.error message)
  | .notifyError message _ => some (.error message)
  | .notifyDone => some .done
  | _ => none

variable {e : SinkEvent α}

theorem RunPoint.tells_notifies {p : RunPoint α ε} (h : p.tells = some e) : p.notifies = 1 := by
  cases p <;> simp_all [tells, notifies]

structure OutcomeInv (s : RunSystem δ α ε) : Prop where
  fresh : s.shared.terminated = false → s.shared.cancelled = false ∧ s.shared.error = none
  logged : ∀ e ∈ s.shared.log, e.ends = true → e = s.shared.outcome
  tells : ∀ p ∈ s.threads, ∀ e, p.tells = some e → e = s.shared.outcome

section Moves

variable {P : Plane δ α ε} {r t : RunImpl δ α} {p q : RunPoint α ε} {new : List (RunPoint α ε)}

section

variable (h : RunMove P r p t q new)

include h

theorem RunMove.fresh (hf : r.terminated = false → r.cancelled = false ∧ r.error = none) :
    t.terminated = false → t.cancelled = false ∧ t.error = none := by
  cases h <;> simp_all [takeTaskRefs, joinScheduled, releaseTaskRef, rejectPost, RunImpl.takeCancel,
    clearScheduledTask, failStatus, addDemand]

theorem RunMove.outcome_eq (ht : r.terminated = true) : t.outcome = r.outcome := by
  cases h
  case rejected hf => simp [outcome, rejectPost, hf]
  case rejectedFails hf => simp [rejectionFails, ht] at hf
  case taskCancelled hn | takeCancel hn _ | fail hn | finish hn => simp [ht] at hn
  all_goals rfl

theorem RunMove.tells_outcome (hf : r.terminated = false → r.cancelled = false ∧ r.error = none)
    (he : q.tells = some e) : e = t.outcome := by
  cases h
  case rejectedFails hr =>
    have ht : r.terminated = false := by simp_all [rejectionFails]
    simp_all [tells, outcome, rejectPost]
  case fail ht => simp_all [tells, outcome, failStatus]
  case finish ht => simp_all [tells, outcome]
  case cancelEnds k _ | markAgain k _ | unposted k _ | releasePosting k _ => cases k <;> cases he
  case unitLoop next _ _ | failEnded next _ | inError next => cases next <;> cases he
  all_goals cases he

theorem RunMove.logged_outcome (hp : ∀ e, p.tells = some e → e = r.outcome) :
    t.log = r.log ∨ ∃ e, t.log = r.log ++ [e] ∧ (e.ends = true → e = t.outcome) := by
  cases h
  case deliver v => exact .inr ⟨.value v,rfl,nofun⟩
  case notifyDone | notifyError | notifyRejected =>
    exact .inr ⟨_,rfl,fun _ => hp _ rfl⟩
  case takeCancel | taskCancelled => exact .inr ⟨_,rfl,fun _ => rfl⟩
  all_goals exact .inl rfl

end

end Moves

namespace OutcomeInv

variable {P : Plane δ α ε} {s : RunSystem δ α ε} {t : RunImpl δ α} {p q : RunPoint α ε}
  {new : List (RunPoint α ε)} {i : Nat}

theorem subscribed (h : Subscribed s) : OutcomeInv s := by
  obtain ⟨shared,threads⟩ := s
  obtain ⟨rfl,d,rfl⟩ := h
  constructor <;> simp

theorem move (h : OutcomeInv s) (hr : RunInv s) (hp : s.threads[i]? = some p)
    (hm : RunMove P s.shared p t q new) :
    OutcomeInv { shared := t, threads := s.threads.set i q ++ new } := by
  have hmem := List.mem_of_getElem? hp
  -- before the run ends nothing is told, and afterwards the outcome stays
  have hkeep : ∀ e : SinkEvent α, s.shared.terminated = true → e = s.shared.outcome →
      e = t.outcome := fun e ht he => (hm.outcome_eq ht).symm ▸ he
  refine ⟨hm.fresh h.fresh,?_,?_⟩
  · have hold : ∀ e ∈ s.shared.log, e.ends = true → e = t.outcome := by
      intro e he hends
      refine hkeep e ?_ (h.logged e he hends)
      by_contra hne
      have := ends_eq_zero (hr.ends_zero hmem (.inr (.inl (by simpa using hne)))) e he
      rw [this] at hends
      cases hends
    rcases hm.logged_outcome (h.tells p hmem) with heq | ⟨e,heq,hlast⟩
    · exact heq ▸ hold
    rw [heq]
    intro x hx hends
    rcases List.mem_append.1 hx with hx | hx
    · exact hold x hx hends
    · obtain rfl := List.mem_singleton.1 hx
      exact hlast hends
  · refine hm.forall_threads (T := fun r p => ∀ e, p.tells = some e → e = r.outcome) h.tells
      (fun e he => hm.tells_outcome h.fresh he) (fun g e he => ?_) ?_
    · cases he
    · intro j x _ hj hx e he
      refine hkeep e ?_ (hx e he)
      have hle := weight_le_load (w := notifies) (List.mem_of_getElem? hj)
      rw [tells_notifies he] at hle
      have hn := hr.notices
      exact flag_of_pos (by omega)

theorem enter (h : OutcomeInv s) (hp : p.entry = true) :
    OutcomeInv { shared := s.shared, threads := s.threads ++ [p] } := by
  refine ⟨h.fresh,h.logged,?_⟩
  have hn : p.tells = none := by cases p <;> first | rfl | cases hp
  simpa [or_imp, forall_and, hn] using h.tells

end OutcomeInv

theorem outcome_invariant (h : Reach (runStep P) Subscribed ok s) : OutcomeInv s :=
  run_invariant h (fun _ hs => ⟨hs,.subscribed hs⟩) (fun hr _ hi _ hp hm => hi.move hr hp hm)
    fun hi hp => hi.enter hp

end Salts.CFlow
