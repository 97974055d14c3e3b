import Salts.CFlowSubflow

/-!
What a subgraph resumable yields is what its inner run hands to the sink, as long as no request
reaches the inner run after its end.
-/

namespace Salts.CFlow

open ThreadPool RunImpl Transition
open RunPoint (asks calls plain)

variable {δ α ε : Type}

def Step.given : Step α → Option α
  | .value v => some v
  | .valueAndDone v => some v
  | _ => none

def SinkEvent.given : SinkEvent α → Option α
  | .value v => some v
  | _ => none

namespace SubflowSystem

def yielded (s : SubflowSystem δ α ε) : List α := s.yields.filterMap Step.given

def received (s : SubflowSystem δ α ε) : List α := s.run.shared.log.filterMap SinkEvent.given

def inFlight (s : SubflowSystem δ α ε) : List α :=
  if load calls s.run.threads = 0 then [] else (calledWith s.run.shared.log).toList

def Reports (log : List (SinkEvent α)) : Step α → Prop
  | .error message => ∃ m, message = some m ∧ .error m ∈ log
  | .done => .done ∈ log
  | .valueAndDone _ => .done ∈ log
  | _ => True

def ending (s : SubflowSystem δ α ε) : Prop :=
  .inDone ∈ s.run.threads ∨ ∃ next, .inError next ∈ s.run.threads

/-- The resumable is not cancelled, no post of the inner run is refused, and the calls that enter
the inner run from outside are wakes and events of its source. -/
def Regular (_ : SubflowSystem δ α ε) : SubflowAction α ε → Prop
  | .run _ c => c.regular = true
  | .enter p => (p matches .wake) ∨ (p matches .source _)
  | .cancel => False
  | _ => True

def RequestAccepted (s : SubflowSystem δ α ε) : SubflowAction α ε → Prop
  | .run i _ => (s.run.threads[i]?).all (fun p => !requestRefused s.run.shared p) = true
  | _ => True

instance (s : SubflowSystem δ α ε) : (a : SubflowAction α ε) → Decidable (s.Regular a)
  | .run _ _ => inferInstanceAs (Decidable (_ = true))
  | .enter _ => inferInstanceAs (Decidable (_ ∨ _))
  | .resume => inferInstanceAs (Decidable True)
  | .advance => inferInstanceAs (Decidable True)
  | .arm => inferInstanceAs (Decidable True)
  | .cancel => inferInstanceAs (Decidable False)

instance (s : SubflowSystem δ α ε) : (a : SubflowAction α ε) → Decidable (s.RequestAccepted a)
  | .run _ _ => inferInstanceAs (Decidable (_ = true))
  | .enter _ => inferInstanceAs (Decidable True)
  | .resume => inferInstanceAs (Decidable True)
  | .advance => inferInstanceAs (Decidable True)
  | .arm => inferInstanceAs (Decidable True)
  | .cancel => inferInstanceAs (Decidable True)

structure SubflowInv (s : SubflowSystem δ α ε) : Prop where
  inner : InnerInv s.run
  kept : s.state.cancelled = false
  -- one value at a time is asked for, under way or in the slot
  slot : tokens s.run + s.state.value.isSome.toNat ≤ 1
  requested : 0 < tokens s.run →
    s.state.requested = true ∨ s.state.done = true ∨ s.state.error.isSome = true
  -- an error keeps the demand it has not answered, so the slot is empty
  failed : ∀ m, s.state.error = some m → 0 < s.run.shared.demand ∧ .error m ∈ s.run.shared.log
  completed : s.state.done = true → .done ∈ s.run.shared.log
  told : ∀ e ∈ s.run.shared.log, e.ends = true →
    s.state.done = true ∨ s.state.error.isSome = true ∨ s.ending
  ledger : s.yielded ++ s.state.value.toList ++ s.inFlight = s.received
  last : ∀ y ∈ s.yields.dropLast, y.terminal = false
  ended : ∀ y ∈ s.yields, y.terminal = true →
    Reports s.run.shared.log y ∧ s.state.value = none ∧ s.point = .idle
  waiter : s.state.waiter = true → s.state.ready = false
  wakes : s.armed = true → s.state.waiter = true ∨ s.woken = true

variable {y : Step α}

theorem Reports.mono {log log' : List (SinkEvent α)} (hsub : ∀ e ∈ log, e ∈ log')
    (h : Reports log y) : Reports log' y := by
  cases y with
  | error message =>
    obtain ⟨m,hm,he⟩ := h
    exact ⟨m,hm,hsub _ he⟩
  | done => exact hsub _ h
  | valueAndDone v => exact hsub _ h
  | value v => trivial
  | wait => trivial

theorem Reports.exists_end {log : List (SinkEvent α)} (h : Reports log y)
    (hy : y.terminal = true) : ∃ e ∈ log, e.ends = true := by
  cases y with
  | error message =>
    obtain ⟨m,-,he⟩ := h
    exact ⟨_,he,rfl⟩
  | done => exact ⟨_,h,rfl⟩
  | valueAndDone v => exact ⟨_,h,rfl⟩
  | value v => cases hy
  | wait => cases hy

section Callbacks

variable {s : SubflowSystem δ α ε} {p : RunPoint α ε}

theorem callback_cases (h : SubflowInv s) (hp : p ∈ s.run.threads) (c : RunChoice) :
    (p.calls = 0 ∧ p ≠ .inDone ∧ (∀ next, p ≠ .inError next) ∧ s.callback p c = (s.state, c)) ∨
    (∃ i v, p = .inValue i ∧ calledWith s.run.shared.log = some v ∧
      s.callback p c =
        ({ s.state with value := some v, requested := false, waiter := false }, .go)) ∨
    (p = .inDone ∧ s.callback p c = (s.state.onDone, .go)) ∨
    (∃ next m, p = .inError next ∧ .error m ∈ s.run.shared.log ∧
      s.callback p c =
        ({ s.state with error := some m, requested := false, waiter := false }, .go)) := by
  have hplain := h.inner.plain p hp
  have hcalled := h.inner.called p hp
  cases p
  case inValue i =>
    obtain ⟨-,v,hv⟩ := hcalled
    have hw : calledWith s.run.shared.log = some v := by simp [calledWith, hv]
    have hempty : s.state.value = none := by
      have hslot := h.slot
      have := weight_le_load (w := calls) hp
      cases hval : s.state.value with
      | none => rfl
      | some w => simp [hval, tokens, calls] at hslot this; omega
    refine .inr (.inl ⟨i,v,rfl,hw,?_⟩)
    simp [callback, hw, SubflowState.onValue, h.kept, hempty]
  case inDone => exact .inr (.inr (.inl ⟨rfl,rfl⟩))
  case inError next =>
    obtain ⟨m,hm⟩ := hcalled
    refine .inr (.inr (.inr ⟨next,m,rfl,List.mem_of_getLast? hm,?_⟩))
    simp [callback, failedWith, hm, SubflowState.onError, h.kept]
  case inRejected => cases hplain
  all_goals exact .inl ⟨rfl,by simp,by simp,rfl⟩

end Callbacks

section Moves

variable {P : Plane δ α ε} {s : SubflowSystem δ α ε} {p q : RunPoint α ε} {c : RunChoice}
  {u : RunImpl δ α} {new : List (RunPoint α ε)} {i : Nat}

section

variable (h : SubflowInv s)

include h

theorem SubflowInv.move_quiet (hp : s.run.threads[i]? = some p)
    (hm : s.run.shared.move P p c = some (u, q, new)) (hc : c.regular = true)
    (hl : requestRefused s.run.shared p = false) (hpoll : ∀ d m, P.poll d ≠ .error m)
    (hcalls : p.calls = 0) (hdone : p ≠ .inDone) (herror : ∀ next, p ≠ .inError next) :
    SubflowInv (s.moved { shared := u, threads := s.run.threads.set i q ++ new } s.state) := by
  have hmem := List.mem_of_getElem? hp
  have hmv : RunMove P s.run.shared p u q new := RunMove.of_move hm
  have hgo : p.calls = 1 → c = .go := fun h1 => by omega
  have hinner := h.inner.move hp hm hc hgo hl hpoll
  have htok := h.inner.tokens_move hp hm hgo hl
  rw [hcalls, Nat.add_zero] at htok
  have hlog := hmv.log_cases (h.inner.plain p hmem) hinner.undisturbed
  have hsub : ∀ e ∈ s.run.shared.log, e ∈ u.log := by
    rcases hlog with ⟨heq,-⟩ | ⟨_,_,-,-,heq⟩ | ⟨_,_,-,-,heq⟩ | ⟨-,-,heq⟩ <;>
      simp +contextual [heq]
  have hload : load calls (s.run.threads.set i q ++ new) = load calls s.run.threads+q.calls := by
    have hnew : load calls new = 0 := by
      by_contra hne
      obtain ⟨x,hx,hpos⟩ := exists_of_load_pos (Nat.pos_of_ne_zero hne)
      obtain ⟨g,rfl⟩ := hmv.started_task x hx
      cases hpos
    have := load_step (w := calls) q new hp
    omega
  -- the callbacks of an end stay where they are
  have hending : s.ending →
      (s.moved { shared := u, threads := s.run.threads.set i q ++ new } s.state).ending := by
    have hstay : ∀ x ∈ s.run.threads, x ≠ p → x ∈ s.run.threads.set i q ++ new := by
      intro x hx hne
      obtain ⟨j,hj⟩ := List.getElem?_of_mem hx
      refine mem_other hj ?_
      rintro rfl
      rw [hp] at hj
      exact hne (Option.some.inj hj).symm
    rintro (hin | ⟨next,hin⟩)
    · exact .inl (hstay _ hin (Ne.symm hdone))
    · exact .inr ⟨next,hstay _ hin (Ne.symm (herror next))⟩
  refine ⟨hinner,h.kept,by simpa only [moved, htok] using h.slot,
    by simpa only [moved, htok] using h.requested,?_,fun hd => hsub _ (h.completed hd),?_,?_,h.last,?_,h.waiter,fun ha => ?_⟩
  · intro m hmsg
    obtain ⟨hpos,hin⟩ := h.failed m hmsg
    refine ⟨?_,hsub _ hin⟩
    rcases hmv.demand_le h.inner.demand_le_one with hle | hopen
    · exact Nat.lt_of_lt_of_le hpos hle
    · have := h.inner.run.opened p hmem hopen
      rw [h.inner.run.terminated_of_ends hin rfl] at this
      cases this
  · intro e he hends
    by_cases hold : e ∈ s.run.shared.log
    · exact (h.told e hold hends).imp_right (Or.imp_right hending)
    refine .inr (.inr ?_)
    rcases hlog with ⟨heq,-⟩ | ⟨_,v,-,-,heq⟩ | ⟨m,next,-,rfl,-⟩ | ⟨-,rfl,-⟩
    · exact absurd (heq ▸ he) hold
    · have he' : e ∈ s.run.shared.log ++ [SinkEvent.value v] := heq ▸ he
      rcases List.mem_append.1 he' with he' | he'
      · exact absurd he' hold
      · obtain rfl := List.mem_singleton.1 he'
        cases hends
    · exact .inr ⟨next,mem_moved hp⟩
    · exact .inl (mem_moved hp)
  · have hledger := h.ledger
    simp only [yielded, inFlight, received, moved, hload] at hledger ⊢
    rcases hlog with ⟨heq,hq⟩ | ⟨k,v,rfl,rfl,heq⟩ | ⟨m,next,rfl,rfl,heq⟩ | ⟨rfl,rfl,heq⟩
    · rw [heq, hq, Nat.add_zero]
      exact hledger
    · -- the demand this value spends was the only token
      have hpos := h.inner.demanded _ hmem rfl
      have hslot := h.slot
      have hvalue : s.state.value = none := by
        cases hv : s.state.value with
        | none => rfl
        | some w => simp [hv, tokens] at hslot; omega
      have h0 : load calls s.run.threads = 0 := by
        simp only [tokens] at hslot
        omega
      simp only [heq, h0, hvalue, calls] at hledger ⊢
      simp [← hledger, calledWith, SinkEvent.given]
    · have h0 := h.inner.calls_eq_zero hp rfl rfl
      simpa [heq, h0, calls, SinkEvent.given, List.filterMap_cons] using hledger
    · have h0 := h.inner.calls_eq_zero hp rfl rfl
      simpa [heq, h0, calls, SinkEvent.given, List.filterMap_cons] using hledger
  · intro y hy hterm
    obtain ⟨hrep,hvalue,hidle⟩ := h.ended y hy hterm
    exact ⟨hrep.mono hsub,hvalue,hidle⟩
  · simpa [moved] using h.wakes ha

theorem SubflowInv.callback_returns (hp : s.run.threads[i]? = some p)
    (hm : s.run.shared.move P p .go = some (u, q, new))
    (hpoint : (∃ k, p = .inValue k) ∨ p = .inDone ∨ ∃ next, p = .inError next)
    (hpoll : ∀ d m, P.poll d ≠ .error m) :
    u = s.run.shared ∧ new = [] ∧ q.calls = 0 ∧
      InnerInv { shared := u, threads := s.run.threads.set i q ++ new } ∧
      tokens { shared := u, threads := s.run.threads.set i q ++ new } + p.calls = tokens s.run := by
  have hl : requestRefused s.run.shared p = false := by
    rcases hpoint with ⟨k,rfl⟩ | rfl | ⟨next,rfl⟩ <;> rfl
  have hret : u = s.run.shared ∧ new = [] ∧ q.calls = 0 := by
    rcases hpoint with ⟨k,rfl⟩ | rfl | ⟨next,rfl⟩ <;> cases hm
    · exact ⟨rfl,rfl,rfl⟩
    · exact ⟨rfl,rfl,rfl⟩
    · exact ⟨rfl,rfl,(RunPoint.plain_loop next).2.2.1⟩
  exact ⟨hret.1,hret.2.1,hret.2.2,h.inner.move hp hm rfl (fun _ => rfl) hl hpoll,
    h.inner.tokens_move hp hm (fun _ => rfl) hl⟩

theorem SubflowInv.move_value {k : Nat} {v : α} (hp : s.run.threads[i]? = some (.inValue k))
    (hm : s.run.shared.move P (.inValue k) .go = some (u, q, new))
    (hv : calledWith s.run.shared.log = some v) (hpoll : ∀ d m, P.poll d ≠ .error m) :
    SubflowInv (s.moved { shared := u, threads := s.run.threads.set i q ++ new }
      { s.state with value := some v, requested := false, waiter := false }) := by
  have hmem := List.mem_of_getElem? hp
  obtain ⟨rfl,rfl,hq,hinner,htok⟩ := h.callback_returns hp hm (.inl ⟨k,rfl⟩) hpoll
  have hopen := (h.inner.called _ hmem).1
  have hcalls := load_step (w := calls) q [] hp
  have hle := weight_le_load (w := calls) hmem
  have hslot := h.slot
  rw [hq] at hcalls
  simp only [calls, load_nil] at hcalls hle htok
  have hdemand : load calls s.run.threads ≤ tokens s.run := Nat.le_add_left _ _
  have hvalue : s.state.value = none := by
    cases hw : s.state.value with
    | none => rfl
    | some w => simp [hw] at hslot; omega
  -- the run has not ended, so nothing is told and nothing terminal is yielded
  have hnoend : ∀ e ∈ s.run.shared.log, e.ends = true → False := by
    intro e he hends
    have := h.inner.run.terminated_of_ends he hends
    rw [hopen] at this
    cases this
  refine ⟨hinner,h.kept,?_,?_,h.failed,h.completed,?_,?_,h.last,?_,by rintro ⟨⟩,fun ha => ?_⟩
  · simp only [moved, Option.isSome_some, Bool.toNat_true]
    omega
  · intro hpos
    simp only [moved] at hpos
    omega
  · exact fun e he hends => (hnoend e he hends).elim
  · have hledger := h.ledger
    have h0 : load calls (s.run.threads.set i q ++ []) = 0 := by omega
    have h1 : load calls s.run.threads ≠ 0 := by omega
    simp only [yielded, inFlight, received, moved, h0, h1, hv, hvalue] at hledger ⊢
    simpa using hledger
  · intro y hy hterm
    obtain ⟨e,he,hends⟩ := (h.ended y hy hterm).1.exists_end hterm
    exact (hnoend e he hends).elim
  · simpa [moved, or_comm] using h.wakes ha

theorem SubflowInv.move_end {t : SubflowState α}
    (hp : s.run.threads[i]? = some p) (hm : s.run.shared.move P p .go = some (u, q, new))
    (hpoint : p = .inDone ∨ ∃ next, p = .inError next) (hpoll : ∀ d m, P.poll d ≠ .error m)
    (hvalue : t.value = s.state.value) (hwaiter : t.waiter = false)
    (hkept : t.cancelled = false) (htold : t.done = true ∨ t.error.isSome = true)
    (hdone : t.done = true → .done ∈ s.run.shared.log)
    (herror : ∀ m, t.error = some m → 0 < s.run.shared.demand ∧ .error m ∈ s.run.shared.log) :
    SubflowInv (s.moved { shared := u, threads := s.run.threads.set i q ++ new } t) := by
  obtain ⟨rfl,rfl,hq,hinner,htok⟩ := h.callback_returns hp hm (.inr hpoint) hpoll
  have hcalls := load_step (w := calls) q [] hp
  have hp0 : p.calls = 0 := by rcases hpoint with rfl | ⟨next,rfl⟩ <;> rfl
  have hload : load calls (s.run.threads.set i q ++ []) = load calls s.run.threads := by
    simp only [load_nil] at hcalls
    omega
  rw [hp0, Nat.add_zero] at htok
  refine ⟨hinner,hkept,?_,fun _ => .inr htold,herror,hdone,?_,?_,h.last,?_,?_,fun ha => ?_⟩
  · simpa only [moved, htok, hvalue] using h.slot
  · exact fun e he hends => htold.imp_right .inl
  · have hledger := h.ledger
    simp only [inFlight, moved, hload, hvalue] at hledger ⊢
    exact hledger
  · intro y hy hterm
    obtain ⟨hrep,hnone,hidle⟩ := h.ended y hy hterm
    exact ⟨hrep,hvalue.trans hnone,hidle⟩
  · intro hw
    simp only [moved, hwaiter] at hw
    cases hw
  · simpa [moved, hwaiter, or_comm] using h.wakes ha

variable {s' : SubflowSystem δ α ε}

theorem SubflowInv.run (hc : c.regular = true) (hl : s.RequestAccepted (.run i c))
    (hpoll : ∀ d m, P.poll d ≠ .error m) (hs : s.step P (.run i c) = some s') : SubflowInv s' := by
  simp only [step, Option.bind_eq_some_iff] at hs
  obtain ⟨p,hp,hs⟩ := hs
  have hmem := List.mem_of_getElem? hp
  have hrefused : requestRefused s.run.shared p = false := by
    simpa [RequestAccepted, hp] using hl
  obtain ⟨run,hrun,rfl⟩ := Option.map_eq_some_iff.1 hs
  rcases step_cases hrun with ⟨j,c',p',u,q,new,ha,hp',hm,rfl⟩ | ⟨p',ha,-⟩
  · obtain ⟨rfl,rfl⟩ : i = j ∧ (s.callback p c).2 = c' := by simpa using ha
    obtain rfl : p = p' := Option.some.inj (hp.symm.trans hp')
    rcases callback_cases h hmem c with ⟨h0,hd,he,hcb⟩ | ⟨k,v,rfl,hv,hcb⟩ | ⟨rfl,hcb⟩ |
      ⟨next,m,rfl,hin,hcb⟩ <;> rw [hcb] at hm ⊢
    · exact h.move_quiet hp hm hc hrefused hpoll h0 hd he
    · exact h.move_value hp hm hv hpoll
    · refine h.move_end hp hm (.inl rfl) hpoll rfl rfl h.kept (.inl rfl) (fun _ => ?_) h.failed
      exact List.mem_of_getLast? (h.inner.called _ hmem)
    · refine h.move_end hp hm (.inr ⟨next,rfl⟩) hpoll rfl rfl h.kept (.inr rfl) h.completed ?_
      rintro _ ⟨⟩
      exact ⟨h.inner.demanded _ hmem rfl,hin⟩
  · cases ha

theorem SubflowInv.enter (he : p.entry = true) (hp : p.plain = true)
    (hcalls : p.calls = 0) (hask : tokens s.run + p.asks + s.state.value.isSome.toNat ≤ 1)
    (hreq : 0 < tokens s.run + p.asks →
      s.state.requested = true ∨ s.state.done = true ∨ s.state.error.isSome = true) :
    SubflowInv { s with run := { s.run with threads := s.run.threads ++ [p] } } := by
  have htok : tokens { s.run with threads := s.run.threads ++ [p] } = tokens s.run + p.asks := by
    simp only [tokens, load_append, load_cons, load_nil]
    omega
  refine ⟨h.inner.enter he hp (by omega),h.kept,by simpa only [htok] using hask,
    by simpa only [htok] using hreq,h.failed,h.completed,?_,?_,h.last,h.ended,h.waiter,
    h.wakes⟩
  · intro e hin hends
    refine (h.told e hin hends).imp_right (Or.imp_right ?_)
    rintro (hx | ⟨next,hx⟩)
    · exact .inl (List.mem_append_left _ hx)
    · exact .inr ⟨next,List.mem_append_left _ hx⟩
  · have hledger := h.ledger
    simp only [inFlight, load_append, load_cons, hcalls] at hledger ⊢
    exact hledger

theorem SubflowInv.unfinished (hpoint : s.point ≠ .idle) : ∀ y ∈ s.yields, y.terminal = false := by
  intro y hy
  by_contra hne
  exact hpoint (h.ended y hy (by simpa using hne)).2.2

theorem SubflowInv.yield (hpoint : s.point ≠ .idle)
    {w : Option α} (hvalue : s.state.value.toList = y.given.toList ++ w.toList)
    (hy : y.terminal = true → Reports s.run.shared.log y ∧ w = none) :
    SubflowInv { s with
      state := { s.state with value := w }, point := .idle, yields := s.yields ++ [y] } := by
  have hfresh := h.unfinished hpoint
  have hslot := h.slot
  have hready : ({ s.state with value := w } : SubflowState α).ready = true →
      s.state.ready = true := by
    cases hs : s.state.value <;> cases w <;>
      simp_all [SubflowState.ready]
  have hfew : w.isSome.toNat ≤ s.state.value.isSome.toNat := by
    cases hs : s.state.value <;> cases w <;> simp_all
  refine ⟨h.inner,h.kept,?_,h.requested,h.failed,h.completed,h.told,?_,?_,?_,?_,h.wakes⟩
  · exact Nat.le_trans (Nat.add_le_add_left hfew _) hslot
  · have hledger := h.ledger
    simp only [yielded, inFlight, received] at hledger ⊢
    rw [← hledger, hvalue]
    have : List.filterMap Step.given [y] = y.given.toList := by
      cases hg : y.given <;> simp [hg]
    simp [this]
  · simpa only [List.dropLast_concat] using hfresh
  · intro z hz hterm
    rcases List.mem_append.1 hz with hz | hz
    · rw [hfresh z hz] at hterm
      cases hterm
    · obtain rfl := List.mem_singleton.1 hz
      exact ⟨(hy hterm).1,(hy hterm).2,rfl⟩
  · intro hw
    by_contra hne
    rw [Bool.not_eq_false] at hne
    have := h.waiter hw
    rw [hready hne] at this
    cases this

theorem SubflowInv.goOn (hpoint : s.point ≠ .idle) (point : SubflowPoint) :
    SubflowInv { s with point := point } := by
  refine ⟨h.inner,h.kept,h.slot,h.requested,h.failed,h.completed,h.told,h.ledger,h.last,
    ?_,h.waiter,h.wakes⟩
  intro y hy hterm
  rw [h.unfinished hpoint y hy] at hterm
  cases hterm

theorem SubflowInv.error_value {m : String} (hm : s.state.error = some m) :
    s.state.value = none := by
  have hpos := (h.failed m hm).1
  have hslot := h.slot
  cases hv : s.state.value with
  | none => rfl
  | some w => simp [hv, tokens] at hslot; omega

theorem SubflowInv.advance_resume (hpoint : s.point = .resume)
    (hs : s.advance = some s') : SubflowInv s' := by
  have hbusy : s.point ≠ .idle := by simp [hpoint]
  rcases SubflowState.resume_cases h.kept with ⟨m,herr,heq⟩ | ⟨v,-,hval,heq⟩ |
    ⟨-,hval,hd,heq⟩ | ⟨-,-,-,-,heq⟩ | ⟨herr,hval,hd,hr,heq⟩ <;>
    simp only [SubflowSystem.advance, hpoint, heq, Option.some.injEq] at hs <;> subst hs
  · have hnone := h.error_value herr
    have := h.yield hbusy (y := .error (some m)) (by simp [hnone, Step.given])
      (fun _ => ⟨⟨m,rfl,(h.failed m herr).2⟩,rfl⟩)
    rwa [← hnone] at this
  · refine h.yield hbusy (by cases s.state.done <;> simp [hval, Step.given]) ?_
    cases hd : s.state.done with
    | true => exact fun _ => ⟨h.completed hd,rfl⟩
    | false => exact nofun
  · have := h.yield hbusy (y := .done) (by simp [hval, Step.given])
      (fun _ => ⟨h.completed hd,rfl⟩)
    rwa [← hval] at this
  · exact h.goOn hbusy .recheck
  · -- nothing is asked for and nothing is under way
    have h0 : tokens s.run = 0 := by
      by_contra hne
      have := h.requested (Nat.pos_of_ne_zero hne)
      simp [herr, hd, hr] at this
    have hreq : SubflowInv { s with state := { s.state with requested := true } } :=
      ⟨h.inner,h.kept,h.slot,fun _ => .inl rfl,h.failed,h.completed,h.told,h.ledger,h.last,
        h.ended,h.waiter,h.wakes⟩
    have hent := hreq.enter (p := .request 1) rfl rfl rfl
      (by simp [h0, hval, asks]) (fun _ => .inl rfl)
    exact hent.goOn hbusy _

theorem SubflowInv.advance (hs : s.advance = some s') : SubflowInv s' := by
  cases hpoint : s.point with
  | idle => simp [SubflowSystem.advance, hpoint] at hs
  | resume => exact h.advance_resume hpoint hs
  | requesting j =>
    have hbusy : s.point ≠ .idle := by simp [hpoint]
    simp only [SubflowSystem.advance, hpoint] at hs
    split at hs
    · cases hs
      exact h.goOn hbusy .recheck
    · rename_i st hne hj
      have hplain := h.inner.plain _ (List.mem_of_getElem? hj)
      have : st = .ok := by simpa [plain] using hplain
      exact absurd this (by simpa using hne)
    · cases hs
  | recheck =>
    have hbusy : s.point ≠ .idle := by simp [hpoint]
    simp only [SubflowSystem.advance, hpoint] at hs
    split at hs
    · cases hs
      exact h.goOn hbusy .resume
    · cases hs
      exact h.yield hbusy rfl (by rintro ⟨⟩)

theorem SubflowInv.step {a : SubflowAction α ε} (hr : s.Regular a) (hl : s.RequestAccepted a)
    (hpoll : ∀ d m, P.poll d ≠ .error m) (hs : s.step P a = some s') : SubflowInv s' := by
  cases a with
  | run i c => exact h.run hr hl hpoll hs
  | enter p =>
    obtain ⟨run,hrun,rfl⟩ := Option.map_eq_some_iff.1 hs
    rcases step_cases hrun with ⟨j,c',p',u,q,new,ha,-⟩ | ⟨p',ha,he,rfl⟩
    · cases ha
    cases ha
    have hw : p.plain = true ∧ p.calls = 0 ∧ p.asks = 0 := by
      cases p <;> simp_all [Regular, plain, calls, asks]
    refine h.enter he hw.1 hw.2.1 ?_ ?_
    · simpa only [hw.2.2, Nat.add_zero] using h.slot
    · simpa only [hw.2.2, Nat.add_zero] using h.requested
  | resume =>
    simp only [SubflowSystem.step, Option.ite_none_right_eq_some, Bool.and_eq_true,
      Bool.not_eq_true', Option.some.injEq] at hs
    obtain ⟨⟨-,hfin⟩,rfl⟩ := hs
    refine ⟨h.inner,h.kept,h.slot,h.requested,h.failed,h.completed,h.told,h.ledger,
      h.last,?_,h.waiter,by simp⟩
    intro y hy hterm
    have := List.any_eq_false.1 hfin y hy
    exact absurd hterm this
  | advance => exact h.advance hs
  | arm =>
    simp only [SubflowSystem.step, Option.ite_none_right_eq_some, Option.some.injEq] at hs
    obtain ⟨-,rfl⟩ := hs
    cases hready : s.state.ready with
    | true =>
      have : s.state.waitArm = s.state := by simp [SubflowState.waitArm, hready]
      rw [this]
      exact ⟨h.inner,h.kept,h.slot,h.requested,h.failed,h.completed,h.told,h.ledger,
        h.last,h.ended,h.waiter,fun _ => .inr rfl⟩
    | false =>
      have : s.state.waitArm = { s.state with waiter := true } := by
        simp [SubflowState.waitArm, hready]
      rw [this]
      exact ⟨h.inner,h.kept,h.slot,h.requested,h.failed,h.completed,h.told,h.ledger,
        h.last,h.ended,fun _ => hready,fun _ => .inl rfl⟩
  | cancel => exact hr.elim

end

theorem SubflowInv.started (h : Started s) : SubflowInv s := by
  obtain ⟨hsub,hs⟩ := h
  have hinner := InnerInv.subscribed hsub
  obtain ⟨ht,d,hd⟩ := hsub
  rw [hs]
  refine ⟨hinner,rfl,?_,?_,nofun,nofun,?_,?_,nofun,nofun,nofun,nofun⟩
  · simp [tokens, ht, hd]
  · simp [tokens, ht, hd]
  · simp [hd]
  · simp [yielded, inFlight, received, ht, hd]

end Moves

end SubflowSystem

/-! ### What a resume yields -/

namespace SubflowSystem

structure Faithful (P : Plane δ α ε) (s : SubflowSystem δ α ε) : Prop where
  /-- The values handed to the sink are those yielded, the one in the slot and the one of a callback
  that has not stored it yet. -/
  order : s.yielded ++ s.state.value.toList ++ s.inFlight = s.received
  last : ∀ y ∈ s.yields.dropLast, y.terminal = false
  /-- A terminal step comes after every value and reports the end of the inner run. -/
  terminal : ∀ y ∈ s.yields, y.terminal = true → s.yielded = s.received ∧ Reports s.run.shared.log y
  /-- Once the sink has been told the end, the next resume returns a terminal step. -/
  told : s.point = .idle → s.finished = false → ¬ s.ending →
    (∃ e ∈ s.run.shared.log, e.ends = true) →
    ∃ t, exec (step P) s [.resume, .advance] = some t ∧ t.finished = true
  /-- A value or an end that comes after a WAIT and its arm has called the waker. -/
  wakes : s.armed = true → s.state.ready = true → s.woken = true

section Results

variable {P : Plane δ α ε} {s : SubflowSystem δ α ε}

theorem SubflowInv.inFlight_eq_nil (h : SubflowInv s)
    (hend : ∃ e ∈ s.run.shared.log, e.ends = true) : s.inFlight = [] := by
  obtain ⟨e,he,hends⟩ := hend
  have hterm := h.inner.run.terminated_of_ends he hends
  have h0 : load calls s.run.threads = 0 := by
    by_contra hne
    obtain ⟨x,hx,hpos⟩ := exists_of_load_pos (Nat.pos_of_ne_zero hne)
    have hcalled := h.inner.called x hx
    cases x <;> simp_all [calls, Called]
  simp [inFlight, h0]

theorem SubflowInv.resume_ends (h : SubflowInv s) (hidle : s.point = .idle)
    (hfin : s.finished = false) (hset : s.state.done = true ∨ s.state.error.isSome = true) :
    ∃ t, exec (SubflowSystem.step P) s [.resume, .advance] = some t ∧ t.finished = true := by
  have hstart : SubflowSystem.step P s .resume =
      some { s with point := .resume, armed := false, woken := false } := by
    simp [SubflowSystem.step, hidle, hfin]
  simp only [exec_cons, hstart, Option.bind_some]
  rcases SubflowState.resume_cases h.kept with ⟨m,-,heq⟩ | ⟨v,herr,-,heq⟩ | ⟨-,-,-,heq⟩ |
    ⟨herr,-,hd,-⟩ | ⟨herr,-,hd,-⟩
  · exact ⟨_,by simp only [SubflowSystem.step, SubflowSystem.advance, heq]; rfl,
      by simp [finished, Step.terminal]⟩
  · have hd : s.state.done = true := by simpa [herr] using hset
    exact ⟨_,by simp only [SubflowSystem.step, SubflowSystem.advance, heq, hd]; rfl,
      by simp [finished, Step.terminal]⟩
  · exact ⟨_,by simp only [SubflowSystem.step, SubflowSystem.advance, heq]; rfl,
      by simp [finished, Step.terminal]⟩
  · simp [herr, hd] at hset
  · simp [herr, hd] at hset

theorem SubflowInv.faithful (h : SubflowInv s) : Faithful P s := by
  refine ⟨h.ledger,h.last,?_,?_,?_⟩
  · intro y hy hterm
    obtain ⟨hrep,hvalue,-⟩ := h.ended y hy hterm
    refine ⟨?_,hrep⟩
    have hledger := h.ledger
    rw [hvalue, h.inFlight_eq_nil (hrep.exists_end hterm)] at hledger
    simpa using hledger
  · intro hidle hfin hending hend
    obtain ⟨e,he,hends⟩ := hend
    refine h.resume_ends hidle hfin ?_
    rcases h.told e he hends with hd | herr | hin
    · exact .inl hd
    · exact .inr herr
    · exact absurd hin hending
  · intro harmed hready
    refine (h.wakes harmed).resolve_left fun hw => ?_
    rw [h.waiter hw] at hready
    cases hready

/-- A resumable that is not cancelled, over an inner run whose posts are accepted, stands for its inner
run in every interleaving in which no request reaches the inner run after its end.  The terminal poll
of the inner source (an array) reports no error. -/
theorem subgraph_resumable_faithful (hpoll : ∀ d m, P.poll d ≠ .error m)
    (h : Reach (step P) Started (fun s a => s.Regular a ∧ s.RequestAccepted a) s) :
    Faithful P s := by
  have hinv : SubflowInv s :=
    h.invariant (fun _ => SubflowInv.started)
      fun _ _ _ hi hok hs => hi.step hok.1 hok.2 hpoll hs
  exact hinv.faithful

end Results

def arraySubflow (values : List Nat) : SubflowSystem (ArraySource Nat) Nat Unit :=
  { run := { shared := { plane := { rest := values } }, threads := [] } }

theorem arraySubflow_started (values : List Nat) : Started (arraySubflow values) :=
  ⟨⟨rfl,_,rfl⟩,rfl⟩

def moves (i n : Nat) : List (SubflowAction Nat Unit) := List.replicate n (.run i .go)

/-- The first resume waits, its waker is called for the first value, and the second request is
answered with the last value and the end. -/
def waitsOnce : List (SubflowAction Nat Unit) :=
  [.resume, .advance] ++ moves 0 5 ++ [.advance, .advance, .arm] ++ moves 1 11 ++
    [.resume, .advance, .resume, .advance] ++ moves 2 5 ++ moves 3 14 ++
    [.advance, .advance, .advance]

/-- Two values are yielded with a WAIT before the first. -/
theorem waitsOnce_faithful :
    ∃ s, exec (step ArraySource.plane) (arraySubflow [7, 8]) waitsOnce = some s ∧
      s.yields = [.wait, .value 7, .valueAndDone 8] ∧ Faithful ArraySource.plane s :=
  exec_shows_and (by decide +kernel) fun s hs _ =>
    subgraph_resumable_faithful (fun _ _ => nofun)
      (.exec_admits (.start (arraySubflow_started [7, 8])) (by decide +kernel) hs)

def asksEndedRun : List (SubflowAction Nat Unit) :=
  [.resume, .advance] ++ moves 0 5 ++ moves 1 10 ++
    [.advance, .advance, .advance, .resume, .advance] ++ moves 2 1 ++ [.advance] ++ moves 1 2

/-- The inner run completes, and the resumable fails with an error of its own. -/
theorem completed_run_reports_request_failed :
    ∃ s : SubflowSystem (ArraySource Nat) Nat Unit,
      Reach (step ArraySource.plane) Started Regular s ∧
      s.run.shared.log = [.value 7, .done] ∧ s.run.shared.error = none ∧
      s.yields = [.value 7, .error (some subflowRequestError)] :=
  exec_shows _ _ asksEndedRun (by decide +kernel) fun s hs =>
    .exec_admits (.start (arraySubflow_started [7])) (by decide +kernel) hs

end SubflowSystem

end Salts.CFlow
