import Salts.ServiceHost

/-!
What the calls on one generation of the service host keep: the leases it holds are those of its
module records, and a configurator without arrays has left no object behind.
-/

namespace Salts.ServiceHost

open Salts.Plugin (PluginRef PluginLease PluginStatus)

structure GenInv (x : Generation) : Prop where
  held : x.held.Perm (x.storage.modules.map HostModule.lease)
  detached : x.components.attached = false → x.instancesEmpty = true
  active : x.components.state = .active → x.components.attached = true
  drained : x.state = .drained → x.storage.modules = [] ∧ x.instancesEmpty = true

namespace Generation

variable {g : Generation} {u : PluginLease → PluginStatus} {i n : Nat}
  {d : ComponentCalls}

theorem length_removeModule (ms : List HostModule) (i : Nat) :
    (removeModule ms i).length = ms.length - 1 := by
  unfold removeModule
  split
  case h_1 hnone => simp [List.getLast?_eq_none_iff.1 hnone]
  case h_2 last _ => simp

theorem removeModule_perm {ms : List HostModule} {m : HostModule} (hm : ms[i]? = some m) :
    ms.Perm (m :: removeModule ms i) := by
  obtain ⟨hi,rfl⟩ := List.getElem?_eq_some_iff.1 hm
  rcases List.eq_nil_or_concat ms with rfl | ⟨front,last,rfl⟩
  · cases hi
  simp only [List.concat_eq_append] at hi hm ⊢
  have hrem : removeModule (front ++ [last]) i = ((front ++ [last]).set i last).dropLast := by
    simp [removeModule]
  rw [hrem]
  rcases Nat.lt_or_ge i front.length with hlt | hge
  · rw [List.set_append_left _ _ hlt, List.dropLast_concat, List.getElem_append_left hlt]
    calc (front ++ [last]).Perm (last :: front) := List.perm_append_singleton ..
      _ |>.Perm (last :: front[i] :: front.eraseIdx i) :=
          ((List.getElem_cons_eraseIdx_perm hlt).symm).cons last
      _ |>.Perm (front[i] :: last :: front.eraseIdx i) := List.Perm.swap ..
      _ |>.Perm (front[i] :: front.set i last) :=
          ((List.set_perm_cons_eraseIdx hlt last).symm).cons _
  · obtain rfl : i = front.length := by
      rw [List.length_append, List.length_singleton] at hi
      omega
    simp

def Released (g x : Generation) : Prop :=
  ∃ modules held, x = { g with storage := { g.storage with modules := modules }, held := held }

theorem Released.trans {x y : Generation} (h : Released g x) (h' : Released x y) :
    Released g y := by
  obtain ⟨_,_,rfl⟩ := h
  obtain ⟨ms,hs,rfl⟩ := h'
  exact ⟨ms,hs,rfl⟩

def Settled (x : Generation) : Prop := x.held.Perm (x.storage.modules.map HostModule.lease)

theorem firstFault_ne {first status : PluginStatus} (h : status ≠ .ok) :
    firstFault first status ≠ .ok := by
  unfold firstFault
  split_ifs with hfirst
  · exact h
  · exact hfirst

theorem releaseOne_cases (r : Generation × PluginStatus) (i : Nat) :
    ((releaseOne u r i).1 = r.1 ∧ (r.1.storage.modules.length ≤ i ∨ (releaseOne u r i).2 ≠ .ok)) ∨
    ∃ m, r.1.storage.modules[i]? = some m ∧ releaseOne u r i =
      ({ r.1 with
          storage := { r.1.storage with modules := removeModule r.1.storage.modules i }
          held := r.1.held.erase m.lease }, r.2) := by
  unfold releaseOne
  split
  case h_1 hnone => exact .inl ⟨rfl,.inl (List.getElem?_eq_none_iff.1 hnone)⟩
  case h_2 m hm =>
    split_ifs with h1 h2
    · exact .inl ⟨rfl,.inr (firstFault_ne (by decide))⟩
    · exact .inl ⟨rfl,.inr (firstFault_ne h2)⟩
    · exact .inr ⟨m,hm,rfl⟩

theorem releaseOne_status (r : Generation × PluginStatus) (i : Nat)
    (h : (releaseOne u r i).2 = .ok) : r.2 = .ok := by
  unfold releaseOne at h
  split at h
  · exact h
  split_ifs at h with h1 h2
  · exact absurd h (firstFault_ne (by decide))
  · exact absurd h (firstFault_ne h2)
  · exact h

variable {r : Generation × PluginStatus}

theorem releaseOne_settled (h : Settled r.1) (i : Nat) :
    Settled (releaseOne u r i).1 ∧ Released r.1 (releaseOne u r i).1 := by
  rcases releaseOne_cases r i with ⟨heq,-⟩ | ⟨m,hm,heq⟩
  · rw [heq]
    exact ⟨h,_,_,rfl⟩
  · rw [heq]
    refine ⟨?_,_,_,rfl⟩
    have hperm : r.1.held.Perm
        (m.lease :: (removeModule r.1.storage.modules i).map HostModule.lease) :=
      h.trans ((removeModule_perm hm).map _)
    have herase := hperm.erase m.lease
    rw [List.erase_cons_head] at herase
    exact herase

theorem releaseFrom_spec (n : Nat) (h : Settled r.1) :
    Settled (releaseFrom u n r).1 ∧ Released r.1 (releaseFrom u n r).1 ∧
      ((releaseFrom u n r).2 = .ok →
        r.2 = .ok ∧ (r.1.storage.modules.length ≤ n →
          (releaseFrom u n r).1.storage.modules = [])) := by
  induction n generalizing r with
  | zero =>
    refine ⟨h,⟨_,_,rfl⟩,fun hok => ⟨hok,fun hn => ?_⟩⟩
    exact List.length_eq_zero_iff.1 (Nat.le_zero.1 hn)
  | succ n ih =>
    obtain ⟨hset,hrel⟩ := releaseOne_settled h n
    obtain ⟨hset',hrel',hend⟩ := ih hset
    refine ⟨hset',hrel.trans hrel',fun hok => ?_⟩
    obtain ⟨hone,hempty⟩ := hend hok
    refine ⟨releaseOne_status r n hone,fun hlen => hempty ?_⟩
    rcases releaseOne_cases r n with ⟨heq,hle | hne⟩ | ⟨m,-,heq⟩
    · rw [heq]
      exact hle
    · exact absurd hone hne
    · rw [heq]
      rw [length_removeModule]
      omega

theorem releaseModules_spec (h : Settled g) :
    Settled (g.releaseModules u).1 ∧ Released g (g.releaseModules u).1 ∧
      ((g.releaseModules u).2 = .ok → (g.releaseModules u).1.storage.modules = []) := by
  obtain ⟨hset,hrel,hend⟩ := releaseFrom_spec g.storage.modules.length (r := (g,.ok)) h
  exact ⟨hset,hrel,fun hok => (hend hok).2 le_rfl⟩

def Stopped (g x : Generation) : Prop :=
  ∃ instances components,
    x = { g with
      storage := { g.storage with instances := instances }
      components := components }

theorem stopOne_keeps (g : Generation) (i : Nat) :
    Stopped g (stopOne d g i) ∧ (stopOne d g i).components = g.components := by
  unfold stopOne
  split_ifs <;> exact ⟨⟨_,_,rfl⟩,rfl⟩

theorem stopLoop_keeps (order : List Nat) (g : Generation) :
    Stopped g (order.foldl (stopOne d) g) ∧
      (order.foldl (stopOne d) g).components = g.components := by
  induction order generalizing g with
  | nil => exact ⟨⟨_,_,rfl⟩,rfl⟩
  | cons i order ih =>
    obtain ⟨⟨xs,cs,h1⟩,hc⟩ := stopOne_keeps g i
    obtain ⟨⟨ys,ds,h2⟩,hd⟩ := ih (stopOne d g i)
    refine ⟨⟨ys,ds,?_⟩,hd.trans hc⟩
    rw [List.foldl_cons, h2, h1]

theorem instancesEmpty_of_scan {zero : Bool} (h : g.scanSettled zero = true)
    (ha : g.components.attached = true) : g.instancesEmpty = true := by
  simp only [scanSettled, ha, Bool.not_true, Bool.false_or, Bool.true_or, Bool.and_true,
    Bool.and_eq_true] at h
  exact h.2.2

structure StopLeaves (r : Generation × ConfiguratorStatus) : Prop where
  detached : r.1.components.attached = false → r.1.instancesEmpty = true
  active : r.1.components.state = .active → r.1.components.attached = true
  ok : r.2 = .ok → r.1.instancesEmpty = true

theorem settleStop_spec (ha : g.components.attached = true) :
    Stopped g g.settleStop.1 ∧ StopLeaves g.settleStop := by
  unfold settleStop
  dsimp only
  split_ifs with hscan
  · exact ⟨⟨_,_,rfl⟩,fun hno => absurd hno (by simp [ha]),nofun,nofun⟩
  · rw [Bool.not_eq_true', Bool.not_eq_false] at hscan
    have hempty := instancesEmpty_of_scan hscan ha
    exact ⟨⟨_,_,rfl⟩,fun _ => hempty,nofun,fun _ => hempty⟩

theorem contextStop_spec (h : GenInv g) :
    Stopped g (g.contextStop d).1 ∧ StopLeaves (g.contextStop d) := by
  unfold contextStop
  split_ifs with hguard
  · exact ⟨⟨_,_,rfl⟩,h.detached,h.active,nofun⟩
  have hatt : g.components.attached = true := by
    simp only [Bool.or_eq_true, bne_iff_ne, not_or, not_not] at hguard
    exact h.active hguard.1
  obtain ⟨⟨xs,cs,hx⟩,hc⟩ := stopLoop_keeps
    (g.storage.activationOrder.take g.components.activationCount).reverse g
  obtain ⟨⟨ys,ds,hy⟩,hleaves⟩ := settleStop_spec (hc ▸ hatt)
  exact ⟨⟨ys,ds,by rw [hy, hx]⟩,hleaves⟩

structure Prepared (y x : Generation) : Prop where
  owner : x.runtimeOwner = y.runtimeOwner
  scopes : x.activeScopes = y.activeScopes
  before : y.state ≠ .published ∧ y.state ≠ .draining ∧ y.state ≠ .stopping
  after : x.state ≠ .published ∧ x.state ≠ .draining ∧ x.state ≠ .stopping
  owned : y.runtimeOwner = true → x.state = .failed
  inv : GenInv x

end Generation

namespace GenInv

open Generation

variable {x y : Generation} {u : PluginLease → PluginStatus}
  {d : ComponentCalls}

section

variable (h : GenInv x)

include h

variable {state : GenerationState}

theorem setState (hs : state ≠ .drained) : GenInv { x with state := state } :=
  ⟨h.held,h.detached,h.active,fun hd => absurd hd hs⟩

theorem released (hs : x.state ≠ .drained) : GenInv (x.releaseModules u).1 := by
  obtain ⟨hset,⟨ms,hs',heq⟩,-⟩ := releaseModules_spec h.held
  rw [heq] at hset ⊢
  exact ⟨hset,h.detached,h.active,fun hd => absurd hd hs⟩

theorem clear (hm : x.storage.modules = []) (he : x.instancesEmpty = true)
    {owner : Bool} {scopes : Nat} :
    GenInv { x.clear with state := state, runtimeOwner := owner, activeScopes := scopes } := by
  refine ⟨?_,fun _ => he,nofun,fun _ => ⟨rfl,he⟩⟩
  have := h.held
  rw [hm] at this
  exact this

theorem stopped (hs : x.state ≠ .drained) : GenInv (x.contextStop d).1 := by
  obtain ⟨⟨xs,cs,heq⟩,hd,ha,-⟩ := contextStop_spec h
  rw [heq] at hd ha ⊢
  exact ⟨h.held,hd,ha,fun hd => absurd hd hs⟩

theorem settled (hs : x.componentsSettled = true) : x.instancesEmpty = true := by
  cases ha : x.components.attached
  · exact h.detached ha
  · rw [componentsSettled, Bool.and_eq_true] at hs
    exact instancesEmpty_of_scan hs.2 ha

theorem graphFails (hown : x.runtimeOwner = false) (hsc : x.activeScopes = 0) :
    GenInv (x.graphFails u).1 ∧ (x.graphFails u).1.runtimeOwner = false ∧
      (x.graphFails u).1.activeScopes = 0 ∧ (x.graphFails u).1.state = .failed := by
  unfold Generation.graphFails
  dsimp only
  obtain ⟨f,hf⟩ : ∃ f : HostFailure, { x.failure with configuratorStatus := .failed } = f := ⟨_,rfl⟩
  rw [hf]
  have hfail : GenInv { x with failure := f, state := .failed } :=
    ⟨h.held,h.detached,h.active,nofun⟩
  have hrel := hfail.released (u := u) nofun
  obtain ⟨-,⟨ms,hs,heq⟩,hempty⟩ := releaseModules_spec hfail.held
  rw [heq] at hrel hempty ⊢
  split_ifs with h1 h2 h3
  · exact ⟨hfail,hown,hsc,rfl⟩
  · exact ⟨⟨hrel.held,hrel.detached,hrel.active,nofun⟩,hown,hsc,rfl⟩
  · exact ⟨hrel.clear (hempty (not_not.1 h2)) (hrel.settled h3),hown,hsc,rfl⟩
  · exact ⟨hrel,hown,hsc,rfl⟩

theorem admissionFails (hs : x.state = .failed) (hd : x.components.attached = false)
    (hown : x.runtimeOwner = false) (hsc : x.activeScopes = 0) (status : HostStatus) :
    GenInv (x.admissionFails u status).1 ∧
      (x.admissionFails u status).1.runtimeOwner = false ∧
      (x.admissionFails u status).1.activeScopes = 0 ∧
      (x.admissionFails u status).1.state = .failed := by
  unfold Generation.admissionFails
  dsimp only
  have hrel := h.released (u := u) (by simp [hs])
  obtain ⟨-,⟨ms,hs',heq⟩,hempty⟩ := releaseModules_spec h.held
  rw [heq] at hrel hempty ⊢
  split_ifs with h1
  · exact ⟨⟨hrel.held,hrel.detached,hrel.active,fun hno => absurd hno (by simp [hs])⟩,hown,hsc,hs⟩
  · exact ⟨hrel.clear (hempty (not_not.1 h1)) (hrel.detached hd),hown,hsc,hs⟩

end

theorem buildable_free (hb : y.buildable = true) :
    y.runtimeOwner = false ∧ y.activeScopes = 0 ∧
      y.state ≠ .published ∧ y.state ≠ .draining ∧ y.state ≠ .stopping := by
  unfold buildable at hb
  split at hb
  all_goals simp_all [isClear]

theorem prepared_of_free (hb : y.buildable = true)
    (h : GenInv x ∧ x.runtimeOwner = false ∧ x.activeScopes = 0 ∧
      (x.state = .failed ∨ x.state = .built)) : Prepared y x := by
  obtain ⟨hown,hsc,hst⟩ := buildable_free hb
  obtain ⟨hinv,hown',hsc',hst'⟩ := h
  refine ⟨hown'.trans hown.symm,hsc'.trans hsc.symm,hst,?_,by simp [hown],hinv⟩
  rcases hst' with hs | hs <;> simp [hs]

theorem reset_empty (x : Generation) : x.resetInstances.instancesEmpty = true := by
  simp [instancesEmpty, resetInstances]

theorem build (h : GenInv y) (args : BuildArgs) (outcome : BuildOutcome) :
    (y.build args u outcome).1 = y ∨ Prepared y (y.build args u outcome).1 := by
  unfold Generation.build
  split_ifs with h1 h2
  · exact .inl rfl
  · exact .inl rfl
  rw [Bool.not_eq_true', Bool.not_eq_false] at h2
  obtain ⟨hown,hsc,-⟩ := buildable_free h2
  split
  case h_1 => exact .inl rfl
  case h_2 =>
    exact .inr (prepared_of_free h2 ⟨⟨h.held,h.detached,h.active,nofun⟩,hown,hsc,.inl rfl⟩)
  case h_3 status failure =>
    have hinv : GenInv { (y.fresh args).resetInstances with failure := failure, state := .failed } :=
      ⟨List.Perm.refl _,fun _ => reset_empty _,nofun,nofun⟩
    obtain ⟨hi,ho,hs,hf⟩ := hinv.admissionFails rfl rfl rfl rfl status
    exact .inr (prepared_of_free h2 ⟨hi,ho,hs,.inl hf⟩)
  case h_4 =>
    have hinv : GenInv { (y.fresh args).resetInstances with components := { state := .failed } } :=
      ⟨List.Perm.refl _,fun _ => reset_empty _,nofun,nofun⟩
    obtain ⟨hi,ho,hs,hf⟩ := hinv.graphFails rfl rfl
    exact .inr (prepared_of_free h2 ⟨hi,ho,hs,.inl hf⟩)
  case h_5 =>
    dsimp only
    have hinv : GenInv { y.fresh args with components := graph args.storage .failed 0 } :=
      ⟨List.Perm.refl _,nofun,nofun,nofun⟩
    split_ifs with hscan
    · have hempty := instancesEmpty_of_scan hscan rfl
      have hdet : GenInv ({ y.fresh args with components := graph args.storage .failed 0 }).detach :=
        ⟨List.Perm.refl _,fun _ => hempty,nofun,nofun⟩
      obtain ⟨hi,ho,hs,hf⟩ := hdet.graphFails rfl rfl
      exact .inr (prepared_of_free h2 ⟨hi,ho,hs,.inl hf⟩)
    · obtain ⟨hi,ho,hs,hf⟩ := hinv.graphFails (u := u) rfl rfl
      exact .inr (prepared_of_free h2 ⟨hi,ho,hs,.inl hf⟩)
  case h_6 =>
    refine .inr (prepared_of_free h2 ⟨?_,rfl,rfl,.inr rfl⟩)
    exact ⟨List.Perm.refl _,nofun,fun _ => rfl,nofun⟩

theorem discard (h : GenInv y) (hfree : y.state = .built → y.runtimeOwner = false) :
    (y.discard d u).1 = y ∨ Prepared y (y.discard d u).1 := by
  unfold Generation.discard
  split_ifs with hst
  · exact .inl rfl
  rw [not_not] at hst
  have hown := hfree hst
  have hbefore : y.state ≠ .published ∧ y.state ≠ .draining ∧ y.state ≠ .stopping := by simp [hst]
  have hstop := h.stopped (d := d) (by simp [hst])
  obtain ⟨⟨xs,cs,heq⟩,-,-,hok⟩ := contextStop_spec h
  dsimp only
  rw [heq] at hstop hok ⊢
  have hrel := hstop.released (u := u) (by simp [hst])
  obtain ⟨-,⟨ms,hs,heq'⟩,hempty⟩ := releaseModules_spec hstop.held
  rw [heq'] at hrel hempty ⊢
  refine .inr ?_
  split_ifs with h1 h2
  · exact ⟨rfl,rfl,hbefore,by simp,fun _ => rfl,hstop.held,hstop.detached,hstop.active,nofun⟩
  · exact ⟨rfl,rfl,hbefore,by simp,fun _ => rfl,hrel.held,hrel.detached,hrel.active,nofun⟩
  · have hno := hok (not_not.1 h1)
    exact ⟨rfl,rfl,hbefore,by simp,by simp [hown],hrel.clear (hempty (not_not.1 h2)) hno⟩

theorem recover (h : GenInv y) : (y.recover u).1 = y ∨ Prepared y (y.recover u).1 := by
  unfold Generation.recover
  split_ifs with h1 h2
  · exact .inl rfl
  · exact .inl rfl
  simp only [not_or, not_not, Bool.not_eq_true] at h1
  obtain ⟨hst,hown,hsc⟩ := h1
  have hset : y.componentsSettled = true := by
    simp only [Bool.or_eq_true, not_or, Bool.not_eq_true', Bool.not_eq_false] at h2
    exact h2.2
  have hbefore : y.state ≠ .published ∧ y.state ≠ .draining ∧ y.state ≠ .stopping := by simp [hst]
  have hrel := h.released (u := u) (by simp [hst])
  obtain ⟨-,⟨ms,hs,heq⟩,hempty⟩ := releaseModules_spec h.held
  dsimp only
  rw [heq] at hrel hempty ⊢
  refine .inr ?_
  split_ifs with h3
  · exact ⟨rfl,rfl,hbefore,hbefore,fun _ => hst,hrel.held,hrel.detached,hrel.active,
      fun hd => absurd hd (by simp [hst])⟩
  · exact ⟨hown.symm,hsc.symm,hbefore,by simp,by simp [hown],
      hrel.clear (hempty (not_not.1 h3)) (h.settled hset)⟩

theorem repair (h : GenInv y) (i : Nat) : y.repair i = y ∨ Prepared y (y.repair i) := by
  unfold Generation.repair
  split_ifs with hst
  · refine .inr ⟨rfl,rfl,by simp [hst],by simp [hst],fun _ => hst,h.held,fun hd => ?_,
      h.active,fun hd => absurd hd (by simp [hst])⟩
    have hall := h.detached hd
    rw [instancesEmpty, List.all_eq_true] at hall ⊢
    intro x hx
    rw [List.mem_iff_getElem?] at hx
    obtain ⟨k,hk⟩ := hx
    rw [List.getElem?_modify] at hk
    split_ifs at hk
    · obtain ⟨z,-,rfl⟩ := Option.map_eq_some_iff.1 hk
      rfl
    · obtain ⟨z,hz,rfl⟩ := Option.map_eq_some_iff.1 hk
      exact hall _ (List.mem_of_getElem? hz)
  · exact .inl rfl

end GenInv

end Salts.ServiceHost
