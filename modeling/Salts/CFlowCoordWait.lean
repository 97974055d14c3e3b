import Salts.CFlowCoord

/-!
A coordinator that returns WAIT has a child to wait for, unless the last child of a LATEST
coordinator ends without a value.
-/

namespace Salts.CFlow

open CoordState
open Transition (exec exec_append exec_cons exec_nil)

namespace CoordSystem

variable {α : Type} {n : Nat} {s t : CoordSystem α n} {a : CoordAction α n}

abbrev CoordReach (s : CoordSystem α n) : Prop :=
  Transition.Reach step Fresh (fun s a => ¬ s.LastChildEndsBare a) s

theorem coordInv_reach (h : CoordReach s) : CoordInv s := by
  refine h.invariant ?_ fun _ _ _ hi hok hs => coordInv_step hi hok hs
  rintro _ ⟨hn,mode,rfl⟩
  exact coordInv_create mode hn

variable {u : CoordState α n} {i : Fin n} {p moved : Bool} {answer : Step α} {r : Step CoordEvent}

theorem waiting_of_not_runnable (hd : (u.children i).done = false) (hr : ¬ u.anyRunnable)
    (hm : u.mode = .allDone ∨ u.mode = .any ∨ (u.mode = .latest ∧ u.allHaveValue) ∨
      ((u.mode = .all ∨ u.mode = .latest) ∧ (u.children i).hasValue = false)) :
    (u.children i).waiting = true := by
  by_contra hw
  refine hr ⟨i,?_⟩
  unfold childRunnable
  grind

theorem exists_not_done (h : ¬ u.allDone) : ∃ i, (u.children i).done = false := by
  simpa [allDone] using h

theorem exists_no_value (h : ¬ u.allHaveValue) : ∃ i, (u.children i).hasValue = false := by
  simpa [allHaveValue] using h

theorem tail_waits (h : CoordInv s) (hp : s.point = some (.tail p))
    (hw : (s.state.resumeTail p).2 = .ret .wait) : s.ChildWaits := by
  obtain ⟨he,hc⟩ := h.running (by simp [hp])
  unfold resumeTail at hw
  cases hm : s.state.mode with
  | all =>
    simp only [hm] at hw
    split at hw
    · cases hw
    rename_i hv
    obtain ⟨i,hi⟩ := exists_no_value hv
    have hd : (s.state.children i).done = false := by
      by_contra hd
      simpa [hi] using h.all hm he hc i (by simpa using hd)
    split at hw
    · rename_i hr
      exact ⟨i,waiting_of_not_runnable hd hr.2 (by simp [hm, hi])⟩
    · cases hw
  | allDone =>
    simp only [hm] at hw
    split at hw
    · cases hw
    rename_i hd
    obtain ⟨i,hi⟩ := exists_not_done hd
    split at hw
    · rename_i hr
      exact ⟨i,waiting_of_not_runnable hi hr.2 (by simp [hm])⟩
    · cases hw
  | any =>
    simp only [hm] at hw
    split at hw
    · cases hw
    rename_i hd
    obtain ⟨i,hi⟩ := exists_not_done hd
    split at hw
    · rename_i hr
      exact ⟨i,waiting_of_not_runnable hi hr (by simp [hm])⟩
    · cases hw
  | latest =>
    simp only [hm] at hw
    split at hw
    · cases hw
    rename_i hbare
    push Not at hbare
    split at hw
    · rename_i hr
      by_cases hv : s.state.allHaveValue
      · obtain ⟨i,hi⟩ := exists_not_done
          (h.latestPass hm hv p (by simp [hp, CoordPoint.progressed])).2
        exact ⟨i,waiting_of_not_runnable hi hr.2 (by simp [hm, hv])⟩
      · obtain ⟨i,hi⟩ := exists_no_value hv
        have hd : (s.state.children i).done = false := by
          by_contra hd
          exact hbare i (by simpa using hd) hi
        exact ⟨i,waiting_of_not_runnable hd hr.2 (by simp [hm, hi])⟩
    · cases hw
  | sequence => simp [hm] at hw

theorem returnEvent_ne_wait (u : CoordState α n) (index : Nat) (done : Bool) :
    (u.returnEvent index done).2 ≠ .ret .wait := by
  cases done <;> simp [returnEvent, emitEvent]

theorem callChild_ne_wait (u : CoordState α n) (start k : Nat) (i : Fin n) (p : Bool) :
    (u.callChild start k i p).2 ≠ .ret .wait := by
  unfold callChild
  split <;> simp

theorem head_waits (hw : s.state.resumeHead.2 = .ret .wait) :
    ∃ i, (s.state.resumeHead.1.children i).waiting = true := by
  unfold resumeHead at hw ⊢
  cases hm : s.state.mode <;> simp only [hm] at hw ⊢
  case sequence =>
    split at hw
    · rename_i hlt
      rw [dif_pos hlt]
      unfold sequenceHead at hw ⊢
      dsimp only at hw ⊢
      split at hw
      · rename_i hi
        exact ⟨⟨_,hlt⟩,by simp [hi]⟩
      · split at hw
        · cases hw
        · split at hw
          · exact absurd hw (callChild_ne_wait _ _ _ _ _)
          · exact absurd hw (returnEvent_ne_wait _ _ _)
    · cases hw
  case any => cases hw
  all_goals
    repeat' split at hw
    all_goals cases hw

theorem scan_ne_wait (u : CoordState α n) (start k : Nat) (p : Bool) :
    (u.resumeScan start k p).2 ≠ .ret .wait := by
  unfold resumeScan
  dsimp only
  repeat' split
  · simp
  · exact callChild_ne_wait _ _ _ _ _
  · simp

theorem scanAnswer_ne_wait (u : CoordState α n) (start k : Nat) (i : Fin n) (p : Bool)
    (answer : Step α) (produced : Bool) :
    (u.scanAnswer start k i p answer produced).2 ≠ .ret .wait := by
  unfold scanAnswer
  repeat' split
  all_goals first
    | exact returnEvent_ne_wait _ _ _
    | simp

theorem sequenceAnswer_waits {produced : Bool}
    (hw : (u.sequenceAnswer i answer produced).2 = .ret .wait) :
    answer = .wait ∧ (u.sequenceAnswer i answer produced).1 = u := by
  unfold sequenceAnswer at hw ⊢
  split at hw
  · cases hw
  · exact ⟨rfl,rfl⟩
  repeat' split at hw
  · exact absurd hw (returnEvent_ne_wait _ _ _)
  · cases hw
  · cases hw

theorem resumeChild_waits (hw : (u.resumeChild i answer moved).2.1 = .wait) :
    ((u.resumeChild i answer moved).1.children i).waiting = true := by
  cases answer <;> cases moved <;> simp_all [resumeChild]

variable {start k : Nat}

theorem answer_waits (hw : (u.resumeAnswer start k i p answer moved).2 = .ret .wait) :
    ((u.resumeAnswer start k i p answer moved).1.children i).waiting = true := by
  unfold resumeAnswer at hw ⊢
  split at hw
  · rename_i hm
    rw [if_pos hm]
    obtain ⟨hanswer,hstate⟩ := sequenceAnswer_waits hw
    rw [hstate]
    exact resumeChild_waits hanswer
  · exact absurd hw (scanAnswer_ne_wait _ _ _ _ _ _ _)

theorem entry_ne_wait (u : CoordState α n) : u.resumeEntry.2 ≠ .ret .wait := by
  unfold resumeEntry
  repeat' split
  all_goals simp

theorem after_returns {r : CoordState α n × CoordNext n} {x : Step CoordEvent}
    (hp : (s.after r).point = none) (hl : (s.after r).last = some x) : r.2 = .ret x := by
  obtain ⟨u,next⟩ := r
  cases next with
  | goto q => simp at hp
  | ret y => simpa using hl

theorem returns_wait (h : CoordInv s) (hs : s.step a = some t) (hr : Returns a t .wait) :
    t.ChildWaits := by
  obtain ⟨ha,hpoint,hlast⟩ := hr
  rcases step_cases hs with ⟨-,-,he,rfl⟩ | ⟨-,hp,rfl⟩ | ⟨start,k,p,-,hp,rfl⟩ |
    ⟨p,-,hp,rfl⟩ | ⟨answer,moved,start,k,i,p,rfl,hp,rfl⟩ | ⟨i,rfl,-⟩ |
    ⟨rfl,-⟩ | ⟨i,rfl,-⟩ | ⟨rfl,-⟩
  · exact absurd (after_returns hpoint hlast) (entry_ne_wait _)
  · obtain ⟨i,hi⟩ := head_waits (after_returns hpoint hlast)
    exact ⟨i,by simpa using hi⟩
  · exact absurd (after_returns hpoint hlast) (scan_ne_wait _ _ _ _)
  · obtain ⟨i,hi⟩ := tail_waits h hp (after_returns hpoint hlast)
    exact ⟨i,by simpa using hi⟩
  · exact ⟨i,by simpa using answer_waits (after_returns hpoint hlast)⟩
  all_goals simp at ha

theorem entry_terminal (hr : u.resumeEntry.2 = .ret r) : r.terminal = true := by
  unfold resumeEntry at hr
  repeat' split at hr
  all_goals cases hr <;> rfl

theorem head_terminal (h : CoordInv s) (hp : s.point = some .head)
    (hr : s.state.resumeHead.2 = .ret r) (hd : s.state.allDone) : r.terminal = true := by
  obtain ⟨he,hc⟩ := h.running (by simp [hp])
  unfold resumeHead at hr
  cases hm : s.state.mode <;> simp only [hm] at hr
  case any => cases hr
  case sequence =>
    split at hr
    · rename_i hlt
      exact absurd (h.sequence hm he hc ⟨_,hlt⟩ (hd _)) (lt_irrefl _)
    · cases hr; rfl
  all_goals
    repeat' split at hr
    all_goals cases hr <;> rfl

theorem scan_terminal (hr : (u.resumeScan start k p).2 = .ret r) : r.terminal = true := by
  unfold resumeScan callChild at hr
  dsimp only at hr
  repeat' split at hr
  all_goals cases hr <;> rfl

theorem tail_terminal (h : CoordInv s) (hp : s.point = some (.tail p))
    (hr : (s.state.resumeTail p).2 = .ret r) (hd : s.state.allDone) : r.terminal = true := by
  obtain ⟨he,hc⟩ := h.running (by simp [hp])
  unfold resumeTail at hr
  cases hm : s.state.mode <;> simp only [hm] at hr
  case all =>
    rw [if_pos (show s.state.allHaveValue from fun i => h.all hm he hc i (hd i))] at hr
    cases hr
  case latest =>
    split at hr
    · cases hr; rfl
    rename_i hbare
    have hv : s.state.allHaveValue := fun i => by
      by_contra hv
      exact hbare ⟨i,hd i,by simpa using hv⟩
    exact absurd hd (h.latestPass hm hv p (by simp [hp, CoordPoint.progressed])).2
  case sequence => cases hr
  all_goals
    rw [if_pos hd] at hr
    cases hr
  rfl

theorem returns_terminal (h : CoordInv s) (hs : s.step a = some t)
    (hr : Returns a t r) (hd : s.state.allDone) : r.terminal = true := by
  obtain ⟨ha,hpoint,hlast⟩ := hr
  rcases step_cases hs with ⟨-,-,he,rfl⟩ | ⟨-,hp,rfl⟩ | ⟨start,k,p,-,hp,rfl⟩ |
    ⟨p,-,hp,rfl⟩ | ⟨answer,moved,start,k,i,p,rfl,hp,rfl⟩ | ⟨i,rfl,-⟩ |
    ⟨rfl,-⟩ | ⟨i,rfl,-⟩ | ⟨rfl,-⟩
  · exact entry_terminal (after_returns hpoint hlast)
  · exact head_terminal h hp (after_returns hpoint hlast) hd
  · exact scan_terminal (after_returns hpoint hlast)
  · exact tail_terminal h hp (after_returns hpoint hlast) hd
  · have := (h.calls _ _ _ _ hp).1
    rw [hd i] at this
    cases this
  all_goals simp at ha

theorem exec_scan_skips (hskip : ∀ i, s.state.skips i = true) (start k : Nat) (p : Bool)
    (hp : s.point = some (.scan start k p)) :
    ∃ m, exec step s (List.replicate m .advance) = some { s with point := some (.tail p) } := by
  induction hd : n - k generalizing s k with
  | zero =>
    refine ⟨1,?_⟩
    have hk : ¬ k < n := by omega
    simp [step, hp, resumeScan, hk]
  | succ d ih =>
    have hk : k < n := by omega
    obtain ⟨m,hm⟩ := ih (s := { s with point := some (.scan start (k + 1) p) }) hskip (k + 1) rfl
      (by omega)
    refine ⟨m+1,?_⟩
    rw [List.replicate_succ]
    simpa [step, hp, resumeScan, hk, hskip] using hm

theorem entry_cases (u : CoordState α n) :
    u.resumeEntry = (u, .goto .head) ∨ ∃ r, u.resumeEntry = (u, .ret r) := by
  unfold resumeEntry
  repeat' split
  all_goals simp

theorem head_finished (h : CoordInv s) (hp : s.point = some .head) (hd : s.state.allDone) :
    (s.state.mode = .any ∧ s.state.resumeHead = (s.state, .goto (.scan s.state.cursor 0 false))) ∨
      ∃ u r, s.state.resumeHead = (u, .ret r) := by
  obtain ⟨he,hc⟩ := h.running (by simp [hp])
  unfold resumeHead
  cases hm : s.state.mode <;> dsimp only
  case all =>
    rw [if_pos (show s.state.allHaveValue from fun i => h.all hm he hc i (hd i))]
    exact .inr ⟨_,_,rfl⟩
  case allDone =>
    rw [if_pos hd]
    split <;> exact .inr ⟨_,_,rfl⟩
  case any => exact .inl ⟨rfl,rfl⟩
  case latest =>
    rw [if_pos hd]
    exact .inr ⟨_,_,rfl⟩
  case sequence =>
    split
    · rename_i hlt
      exact absurd (h.sequence hm he hc ⟨_,hlt⟩ (hd _)) (lt_irrefl _)
    · exact .inr ⟨_,_,rfl⟩

theorem finished_returns (h : CoordInv s) (hp : s.point = none) (he : s.ended = false)
    (hd : s.state.allDone) :
    ∃ m t r, exec step s (.resume :: List.replicate m .advance) = some t ∧
      t.point = none ∧ t.last = some r ∧ r.terminal = true := by
  have hresume : s.step .resume = some (s.after s.state.resumeEntry) := by simp [step, hp, he]
  have h1 := coordInv_resume h he
  rcases entry_cases s.state with hentry | ⟨r,hentry⟩
  · rw [hentry, after_goto] at hresume h1
    have hadvance : ({ s with point := some .head } : CoordSystem α n).step .advance =
        some (({ s with point := some .head } : CoordSystem α n).after s.state.resumeHead) := rfl
    rcases head_finished h1 rfl hd with ⟨hm',hhead⟩ | ⟨u,r,hhead⟩
    · have hskip : ∀ i, s.state.skips i = true := fun i => by
        simp only at hm'
        simp [skips, hm', hd i]
      obtain ⟨m,hm⟩ := exec_scan_skips
        (s := { s with point := some (.scan s.state.cursor 0 false) })
        hskip s.state.cursor 0 false rfl
      refine ⟨1 + (m + 1),{ s with point := none, last := some .done },.done,?_,rfl,rfl,rfl⟩
      have htail : ({ s with point := some (.tail false) } : CoordSystem α n).step .advance =
          some { s with point := none, last := some .done } := by
        simp only at hm'
        simp [step, resumeTail, hm', hd]
      rw [exec_cons, hresume, Option.bind_some, List.replicate_add,
        exec_append, List.replicate_add, List.replicate_one, exec_cons,
        hadvance, hhead, Option.bind_some, after_goto, exec_nil, Option.bind_some,
        exec_append, hm, Option.bind_some, exec_cons, htail]
      rfl
    · refine ⟨1,{ state := u, point := none, last := some r },r,?_,rfl,rfl,?_⟩
      · simp [hresume, hadvance, hhead]
      · exact head_terminal h1 rfl (by simpa using congrArg Prod.snd hhead) hd
  · refine ⟨0,{ state := s.state, point := none, last := some r },r,?_,rfl,rfl,?_⟩
    · simp [hresume, hentry]
    · exact entry_terminal (u := s.state) (by simp [hentry])

/-- The last child of LATEST ends bare: the pass ends with nothing to run, and the call returns
WAIT although no child is left that could wake it. -/
theorem endsBare_waits (h : CoordInv s) (hbare : s.LastChildEndsBare a) (hs : s.step a = some t) :
    ∃ m u, exec step t (List.replicate m .advance) = some u ∧
      u.point = none ∧ u.last = some .wait ∧ ¬ u.ChildWaits := by
  obtain ⟨start,k,i,p,moved,hp,rfl,hm,hv,hothers⟩ := hbare
  obtain ⟨he,hc⟩ := h.running (by simp [hp])
  obtain ⟨hd,hw,-⟩ := h.calls _ _ _ _ hp
  have hprog := (h.latestPass hm hv p (by simp [hp, CoordPoint.progressed])).1
  let v : CoordState α n :=
    { s.state.setChild i { s.state.children i with done := true } with cursor := (i.val + 1) % n }
  have ht : t = { s with state := v, point := some (.scan start (k + 1) false) } := by
    simp only [step, hp, Option.some.injEq] at hs
    rw [← hs, hprog]
    simp [resumeAnswer, resumeChild, scanAnswer, hm, v]
  have hdone : v.allDone := by
    intro j
    by_cases hj : j = i
    · subst hj
      simp [v]
    · simpa [v, hj] using hothers j hj
  have hval : v.allHaveValue := by
    intro j
    by_cases hj : j = i
    · subst hj
      simpa [v] using hv j
    · simpa [v, hj] using hv j
  have hwait : ∀ j, (v.children j).waiting = false := by
    intro j
    by_cases hj : j = i
    · subst hj
      simpa [v] using hw
    · simpa [v, hj] using h.latestDone hm hc j (hothers j hj)
  have hrun : ∀ j, v.childRunnable j = false := by
    intro j
    simp [childRunnable, hdone j]
  have hskip : ∀ j, v.skips j = true := by
    intro j
    have hvm : v.mode = .latest := hm
    simp [skips, hvm, hrun j]
  obtain ⟨m,hexec⟩ :=
    exec_scan_skips (s := t) (by rw [ht]; exact hskip) start (k+1) false (by rw [ht])
  refine ⟨m+1,{ state := v, point := none, last := some .wait },?_,rfl,rfl,?_⟩
  · rw [List.replicate_add, exec_append, hexec, ht]
    have hvm : v.mode = .latest := hm
    have hbare : ¬ ∃ j, (v.children j).done = true ∧ (v.children j).hasValue = false := by
      rintro ⟨j,-,hj⟩
      rw [hval j] at hj
      cases hj
    have hnone : ¬ v.anyRunnable := by
      rintro ⟨j,hj⟩
      rw [hrun j] at hj
      cases hj
    simp [step, resumeTail, hvm, hbare, hnone]
  · rintro ⟨j,hj⟩
    rw [hwait j] at hj
    cases hj

/-- In every run in which no LATEST coordinator has its last child end bare, a call that returns
WAIT leaves a child waiting, and once every child has finished the next call runs to a terminal
step.  The excluded answer always leads to a WAIT that nothing can end. -/
theorem coord_wait_has_waiting_child (hs : CoordReach s) :
    (∀ a t, s.step a = some t → Returns a t .wait → t.ChildWaits) ∧
    (∀ a t r, s.state.allDone → s.step a = some t → Returns a t r → r.terminal = true) ∧
    (s.state.allDone → s.point = none → s.ended = false →
      ∃ m t r, exec step s (.resume :: List.replicate m .advance) = some t ∧
        t.point = none ∧ t.last = some r ∧ r.terminal = true) ∧
    (∀ a t, s.LastChildEndsBare a → s.step a = some t →
      ∃ m u, exec step t (List.replicate m .advance) = some u ∧
        u.point = none ∧ u.last = some .wait ∧ ¬ u.ChildWaits) := by
  have h := coordInv_reach hs
  exact ⟨fun a t ht hr => returns_wait h ht hr,fun a t r hd ht hr => returns_terminal h ht hr hd,
    fun hd hp he => finished_returns h hp he hd,fun a t hbare ht => endsBare_waits h hbare ht⟩

def bothValues : List (CoordAction Nat 2) :=
  [.resume, .advance, .advance, .answer (.value 7) true, .advance, .answer (.value 8) true,
    .resume, .advance, .advance]

def oneEndsBare : List (CoordAction Nat 2) :=
  bothValues ++ [.answer .done true, .advance, .answer .wait true, .advance]

/-- The first of two children of a LATEST coordinator ends bare behind a value from both: the
coordinator waits, and so does the second child. -/
theorem latest_wait_has_waiting_child :
    ∃ s t, exec step (create .latest : CoordSystem Nat 2) oneEndsBare = some s ∧
      (s.state.allHaveValue ∧ (s.state.children 0).done = true) ∧
      s.step .advance = some t ∧ Returns .advance t .wait ∧ t.ChildWaits := by
  obtain ⟨u,hu,hpoint,hopen⟩ : ∃ u, exec step (create .latest) bothValues = some u ∧
      u.point = some (.child 0 0 0 false) ∧ (u.state.children 1).done = false := ⟨_,rfl,rfl,rfl⟩
  have hreach : CoordReach u := by
    refine Transition.Reach.exec (.start ⟨by decide,.latest,rfl⟩) ?_ hu
    rintro a ha v ⟨_,_,_,_,moved,-,rfl,-⟩
    simp [bothValues] at ha
  have hrest : exec step (create .latest : CoordSystem Nat 2) oneEndsBare =
      (u.step (.answer .done true)).bind fun v =>
        exec step v [.advance, .answer .wait true, .advance] := by
    rw [oneEndsBare, exec_append, hu]
    rfl
  obtain ⟨s,hs,hfacts,t,ht,hp,hl⟩ :
      ∃ s, exec step (create .latest : CoordSystem Nat 2) oneEndsBare = some s ∧
        (s.state.allHaveValue ∧ (s.state.children 0).done = true) ∧
        ∃ t, s.step .advance = some t ∧ t.point = none ∧ t.last = some .wait :=
    ⟨_,rfl,by decide,_,rfl,rfl,rfl⟩
  have hr : Returns .advance t .wait := ⟨.inr (.inl rfl),hp,hl⟩
  obtain ⟨v,hv,hlast⟩ := Option.bind_eq_some_iff.1 (hrest.symm.trans hs)
  -- the second child has not ended
  have hnext : CoordReach v := by
    refine .next hreach ?_ hv
    rintro ⟨_,_,i,_,_,hi,-,-,-,hothers⟩
    obtain rfl : i = 0 := by
      rw [hpoint] at hi
      injection hi with hi
      injection hi with _ _ hi
      exact hi.symm
    have hended := hothers 1 (by decide)
    rw [hopen] at hended
    cases hended
  have hend : CoordReach s := by
    refine hnext.exec ?_ hlast
    rintro a ha w ⟨_,_,_,_,moved,-,rfl,-⟩
    simp at ha
  exact ⟨s,t,hs,hfacts,ht,hr,(coord_wait_has_waiting_child hend).1 .advance t ht hr⟩

def latestEndsBare : List (CoordAction Nat 1) :=
  [.resume, .advance, .advance, .answer (.value 7) true,
    .resume, .advance, .advance, .answer .done true, .advance, .advance]

theorem latest_waits_without_child :
    ∃ s, exec step (create .latest : CoordSystem Nat 1) latestEndsBare = some s ∧
      s.point = none ∧ s.last = some .wait ∧ s.state.allDone ∧ ¬ s.ChildWaits :=
  ⟨_,rfl,rfl,rfl,by decide,by decide⟩

end CoordSystem

end Salts.CFlow
