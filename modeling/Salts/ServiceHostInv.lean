import Salts.ServiceHostGen
import Salts.TableSum

/-!
What every interleaving of calls on a service host runtime keeps: the place of each generation
between build and drain, the counters of attached generations and of scopes, and the ids published.
-/

namespace Salts.ServiceHost

open ThreadPool Transition TableSum Salts.CFlow Salts.Plugin HostPoint Generation
open Function (update update_of_ne update_self)

abbrev HostSystem := Config Host HostPoint

abbrev HostAction := Act HostPoint HostChoice

def hostStep : HostSystem → HostAction → Option HostSystem :=
  ThreadPool.step Host.move entry

/-- A runtime as `salts_service_host_runtime_init` leaves it, with unused bundles and scopes. -/
def HostReady (s : HostSystem) : Prop :=
  s.threads = [] ∧ ∃ bundles scopes, s.shared = { bundles, scopes }

namespace HostPoint

def ended : HostPoint → Bool
  | .published _ => true
  | .closed _ => true
  | .returned _ => true
  | _ => false

def drainsAt (g : Nat) : HostPoint → Nat
  | .stopping j => if j = g then 1 else 0
  | .releasing j => if j = g then 1 else 0
  | .clearing j => if j = g then 1 else 0
  | .failing j _ => if j = g then 1 else 0
  | _ => 0

variable {p : HostPoint}

theorem drainsAt_entry (h : p.entry = true) (g : Nat) : p.drainsAt g = 0 := by
  cases p <;> first | (cases h; done) | rfl

theorem drainsAt_ended (h : p.ended = true) (g : Nat) : p.drainsAt g = 0 := by
  cases p <;> first | (cases h; done) | rfl

end HostPoint

def Works (x : Generation) : HostPoint → Prop
  | .releasing _ => x.instancesEmpty = true
  | .clearing _ => x.instancesEmpty = true ∧ x.storage.modules = []
  | _ => True

structure Attachable (h : Host) (g : Nat) : Prop where
  range : g < h.bundles
  built : (h.gen g).state = .built
  publishable : (h.gen g).publishable = true
  free : (h.gen g).runtimeOwner = false
  id : h.lastGenerationId < (h.gen g).id

def SameBooks (y x : Generation) : Prop :=
  x.runtimeOwner = y.runtimeOwner ∧ x.activeScopes = y.activeScopes ∧ x.state = y.state

inductive HostMove (h : Host) : HostPoint → Host → HostPoint → Prop
  | refuse (p q : HostPoint) (hp : p.entry = true) (hq : q.ended = true) : HostMove h p h q
  | publishFirst (g : Nat) (ha : Attachable h g) (hc : h.current = none) :
      HostMove h (.publish g) (h.attach g) (.published none)
  | publishNext (g previous : Nat) (ha : Attachable h g) (hc : h.current = some previous)
      (hst : (h.gen previous).state = .published) :
      HostMove h (.publish g) ((h.attach g).withdraw previous) (.published (some previous))
  | close (previous : Nat) (hc : h.current = some previous)
      (hst : (h.gen previous).state = .published) :
      HostMove h .close { h.withdraw previous with current := none } (.closed previous)
  | acquire (c g : Nat) (hc : c < h.scopes) (hl : (h.scope c).live = false)
      (hcur : h.current = some g) (hst : (h.gen g).state = .published) :
      HostMove h (.acquire c)
        { h.put g { h.gen g with activeScopes := (h.gen g).activeScopes + 1 } with
          activeScopes := h.activeScopes + 1
          scope := update h.scope c ⟨g, (h.gen g).id, c, true⟩ } (.returned .ok)
  | release (c : Nat) (hc : c < h.scopes) (hl : (h.scope c).live = true)
      (hpos : (h.gen (h.scope c).generation).activeScopes ≠ 0) (hpos' : h.activeScopes ≠ 0) :
      HostMove h (.release c)
        { h.put (h.scope c).generation { h.gen (h.scope c).generation with
            activeScopes := (h.gen (h.scope c).generation).activeScopes - 1 } with
          activeScopes := h.activeScopes - 1
          scope := update h.scope c {} } (.returned .ok)
  | drain (g : Nat) (hown : (h.gen g).runtimeOwner = true) (hsc : (h.gen g).activeScopes = 0)
      (hst : (h.gen g).state = .draining ∨ (h.gen g).state = .failed) :
      HostMove h (.drain g) (h.put g { h.gen g with state := .stopping }) (.stopping g)
  | owner (p : HostPoint) (g : Nat) (x : Generation) (status : HostStatus) (hp : p.entry = true)
      (hx : GenInv (h.gen g) → ((h.gen g).state = .built → (h.gen g).runtimeOwner = false) →
        x = h.gen g ∨ Generation.Prepared (h.gen g) x) :
      HostMove h p (h.put g x) (.returned status)
  | works (p : HostPoint) (g : Nat) (x : Generation) (q : HostPoint)
      (hp : ∀ j, p.drainsAt j = if g = j then 1 else 0)
      (hq : ∀ j, q.drainsAt j = if g = j then 1 else 0)
      (hx : GenInv (h.gen g) → (h.gen g).state = .stopping → Works (h.gen g) p →
        SameBooks (h.gen g) x ∧ GenInv x ∧ Works x q) :
      HostMove h p (h.put g x) q
  | finish (g : Nat) :
      HostMove h (.clearing g)
        { h.put g { (h.gen g).clear with state := .drained, runtimeOwner := false } with
          attachedGenerations := h.attachedGenerations - 1 } (.returned .ok)
  | fails (g : Nat) (status : HostStatus) :
      HostMove h (.failing g status) (h.put g { h.gen g with state := .failed }) (.returned status)

namespace HostMove

open Host

variable {h : Host} {p : HostPoint} {m : Move} {c : HostChoice}

theorem of_publish (g : Nat) : HostMove h (.publish g) (h.publish g).1 (h.publish g).2 := by
  unfold Host.publish
  dsimp only
  split_ifs with h1 h2 h3
  any_goals exact .refuse _ _ rfl rfl
  simp only [not_or, not_not, Bool.not_eq_false, Bool.not_eq_true, not_le] at h1 h2
  have ha : Attachable h g := ⟨h1,h2.1,h2.2.1,h2.2.2.1,h2.2.2.2.2⟩
  split
  case h_1 hc => exact .publishFirst g ha hc
  case h_2 previous hc =>
    split_ifs with hst
    · exact .refuse _ _ rfl rfl
    · exact .publishNext g previous ha hc (not_not.1 hst)

theorem of_close : HostMove h .close h.close.1 h.close.2 := by
  unfold Host.close
  split
  case h_1 => exact .refuse _ _ rfl rfl
  case h_2 previous hc =>
    split_ifs with hst
    · exact .refuse _ _ rfl rfl
    · exact .close previous hc (not_not.1 hst)

theorem of_acquire (c : Nat) : HostMove h (.acquire c) (h.acquire c).1 (h.acquire c).2 := by
  unfold Host.acquire
  split_ifs with h1 h2
  any_goals exact .refuse _ _ rfl rfl
  split
  case h_1 => exact .refuse _ _ rfl rfl
  case h_2 g hc =>
    dsimp only
    split_ifs with h3 h4
    any_goals exact .refuse _ _ rfl rfl
    exact .acquire c g (Nat.lt_of_not_le h1) (by simpa using h2) hc (not_not.1 h3)

theorem of_release (c : Nat) : HostMove h (.release c) (h.release c).1 (h.release c).2 := by
  unfold Host.release
  dsimp only
  split_ifs with h1 h2 h3
  any_goals exact .refuse _ _ rfl rfl
  simp only [not_or, not_le, Bool.not_eq_false] at h1 h3
  exact .release c h1.1 h1.2 h3.2.2.1 h3.2.2.2

theorem of_drain (g : Nat) : HostMove h (.drain g) (h.drain g).1 (h.drain g).2 := by
  unfold Host.drain
  dsimp only
  split_ifs with h1 h2 h3 h4
  any_goals exact .refuse _ _ rfl rfl
  simp only [not_or, Bool.not_eq_false, drainable, Bool.or_eq_true, Bool.and_eq_true,
    beq_iff_eq] at h2
  exact .drain g h2.1 (not_not.1 h3) (h2.2.2.imp_right And.left)

theorem of_stop (g : Nat) (calls : ComponentCalls) :
    HostMove h (.stopping g) (h.stop g calls).1 (h.stop g calls).2 := by
  unfold Host.stop
  dsimp only
  obtain ⟨r,hr,hspec⟩ : ∃ r : Generation × ConfiguratorStatus,
      (if (h.gen g).components.state = .active then (h.gen g).contextStop calls
        else (h.gen g,.ok)) = r ∧
      (GenInv (h.gen g) → (h.gen g).state = .stopping → SameBooks (h.gen g) r.1 ∧ GenInv r.1) := by
    refine ⟨_,rfl,fun hi hs => ?_⟩
    split_ifs
    · obtain ⟨⟨xs,cs,heq⟩,-⟩ := contextStop_spec hi
      refine ⟨?_,hi.stopped (by simp [hs])⟩
      rw [heq]
      exact ⟨rfl,rfl,rfl⟩
    · exact ⟨⟨rfl,rfl,rfl⟩,hi⟩
  rw [hr]
  obtain ⟨status,hstatus⟩ : ∃ status : ConfiguratorStatus,
      (if r.2 = .ok ∧ r.1.componentsSettled = false then .invalidState else r.2) = status :=
    ⟨_,rfl⟩
  rw [hstatus]
  split_ifs with hok
  · refine .works _ g _ _ (fun _ => rfl) (fun _ => rfl) fun hi hs _ => ?_
    obtain ⟨hb,hg⟩ := hspec hi hs
    exact ⟨hb,⟨hg.held,hg.detached,hg.active,hg.drained⟩,trivial⟩
  · refine .works _ g _ _ (fun _ => rfl) (fun _ => rfl) fun hi hs _ => ?_
    obtain ⟨hb,hg⟩ := hspec hi hs
    have hsettled : r.1.componentsSettled = true := by
      by_contra hno
      rw [not_not] at hok
      rw [hok] at hstatus
      split_ifs at hstatus with hif
      simp_all
    exact ⟨hb,hg,hg.settled hsettled⟩

theorem of_releaseLeases (g : Nat) (answer : PluginLease → PluginStatus) :
    HostMove h (.releasing g) (h.releaseLeases g answer).1 (h.releaseLeases g answer).2 := by
  have hspec : GenInv (h.gen g) → (h.gen g).state = .stopping →
      (h.gen g).instancesEmpty = true →
      SameBooks (h.gen g) ((h.gen g).releaseModules answer).1 ∧
        GenInv ((h.gen g).releaseModules answer).1 ∧
        ((h.gen g).releaseModules answer).1.instancesEmpty = true ∧
        (((h.gen g).releaseModules answer).2 = .ok →
          ((h.gen g).releaseModules answer).1.storage.modules = []) := by
    intro hi hs he
    have hrel := hi.released (u := answer) (by simp [hs])
    obtain ⟨-,⟨ms,hh,heq⟩,hempty⟩ := releaseModules_spec hi.held
    refine ⟨?_,hrel,?_,hempty⟩
    · rw [heq]
      exact ⟨rfl,rfl,rfl⟩
    · rw [heq]
      exact he
  unfold Host.releaseLeases
  dsimp only
  split_ifs with hok
  · refine .works _ g _ _ (fun _ => rfl) (fun _ => rfl) fun hi hs hw => ?_
    obtain ⟨hb,hg,-,-⟩ := hspec hi hs hw
    exact ⟨hb,⟨hg.held,hg.detached,hg.active,hg.drained⟩,trivial⟩
  · refine .works _ g _ _ (fun _ => rfl) (fun _ => rfl) fun hi hs hw => ?_
    obtain ⟨hb,hg,he,hm⟩ := hspec hi hs hw
    exact ⟨hb,hg,he,hm (not_not.1 hok)⟩

theorem of_moveOwner (hm : h.moveOwner p c = some m) : HostMove h p m.1 m.2 := by
  unfold moveOwner at hm
  split at hm <;> cases hm
  case h_1 g args answer outcome => exact .owner _ g _ _ rfl fun hi _ => hi.build args outcome
  case h_2 g _ _ => exact .owner _ g _ _ rfl fun hi hf => hi.discard hf
  case h_3 g _ _ => exact .owner _ g _ _ rfl fun hi _ => hi.recover
  case h_4 g i => exact .owner _ g _ _ rfl fun hi _ => hi.repair i

theorem of_moveDrain (hm : h.moveDrain p c = some m) : HostMove h p m.1 m.2 := by
  unfold moveDrain at hm
  split at hm <;> cases hm
  exacts [of_stop _ _, of_releaseLeases _ _, .finish _, .fails _ _]

theorem of_moveEntry (hm : h.moveEntry p c = some m) : HostMove h p m.1 m.2 := by
  unfold moveEntry at hm
  split at hm <;> cases hm
  exacts [of_publish _, of_close, of_acquire _, of_release _, of_drain _]

theorem of_move {t : Host} {q : HostPoint} {new : List HostPoint}
    (hm : h.move p c = some (t, q, new)) : HostMove h p t q ∧ new = [] := by
  obtain ⟨m,hor,heq⟩ := Option.map_eq_some_iff.1 hm
  cases heq
  refine ⟨?_,rfl⟩
  rcases Option.or_eq_some_iff.1 hor with hentry | ⟨-,hrest⟩
  · exact of_moveEntry hentry
  · rcases Option.or_eq_some_iff.1 hrest with howner | ⟨-,hdrain⟩
    · exact of_moveOwner howner
    · exact of_moveDrain hdrain

end HostMove

structure GenPlace (h : Host) (drains g : Nat) (x : Generation) : Prop where
  inv : GenInv x
  owned : x.runtimeOwner = true → g < h.bundles ∧
    (x.state = .published ∨ x.state = .draining ∨ x.state = .stopping ∨ x.state = .failed)
  free : x.runtimeOwner = false → x.activeScopes = 0 ∧
    x.state ≠ .published ∧ x.state ≠ .draining ∧ x.state ≠ .stopping
  publishable : x.state = .published ∨ x.state = .draining → x.publishable = true
  quiet : x.activeScopes ≠ 0 → x.state = .published ∨ x.state = .draining
  current : h.current = some g ↔ x.state = .published
  drains : drains = (x.state == .stopping).toNat

def Scope.on (g : Nat) (c : Scope) : Bool := c.live && c.generation == g

structure HostInv (s : HostSystem) : Prop where
  places : ∀ g, GenPlace s.shared (load (drainsAt g) s.threads) g (s.shared.gen g)
  attached : s.shared.attachedGenerations =
    tally (fun x => x.runtimeOwner.toNat) s.shared.bundles s.shared.gen
  active : s.shared.activeScopes = tally activeScopes s.shared.bundles s.shared.gen
  counted : ∀ g, (s.shared.gen g).activeScopes =
    tally (fun c => (c.on g).toNat) s.shared.scopes s.shared.scope
  working : ∀ p ∈ s.threads, ∀ g, p.drainsAt g = 1 → Works (s.shared.gen g) p
  ids : s.shared.publications.Pairwise (· < ·) ∧
    ∀ id ∈ s.shared.publications, id ≤ s.shared.lastGenerationId

namespace HostInv

variable {s : HostSystem} {t : Host} {p q : HostPoint} {n : Nat}

theorem ready (h : HostReady s) : HostInv s := by
  obtain ⟨shared,threads⟩ := s
  obtain ⟨hthreads,bundles,scopes,hshared⟩ := h
  obtain rfl : threads = [] := hthreads
  obtain rfl : shared = { bundles, scopes } := hshared
  have hzero : ∀ {α : Type} (n : Nat) (x : α) (w : α → Nat), w x = 0 →
      tally w n (fun _ => x) = 0 := by
    intro α n x w hw
    simp [tally, hw]
  refine ⟨fun g => ?_,(hzero _ _ _ rfl).symm,(hzero _ _ _ rfl).symm,
    fun g => (hzero _ _ _ rfl).symm,nofun,List.Pairwise.nil,nofun⟩
  exact
    { inv := ⟨List.Perm.refl _,fun _ => rfl,nofun,nofun⟩
      owned := nofun
      free := fun _ => ⟨rfl,nofun,nofun,nofun⟩
      publishable := nofun
      quiet := fun hno => absurd rfl hno
      current := ⟨nofun,nofun⟩
      drains := rfl }

theorem move_places (h : HostInv s) (hp : s.threads[n]? = some p) (touched : Nat → Prop)
    (hbundles : t.bundles = s.shared.bundles)
    (hother : ∀ j, ¬ touched j → t.gen j = s.shared.gen j ∧
      (t.current = some j ↔ s.shared.current = some j) ∧ p.drainsAt j = q.drainsAt j)
    (htouched : ∀ j, touched j →
      ∀ d, d + p.drainsAt j = load (drainsAt j) s.threads + q.drainsAt j →
        GenPlace t d j (t.gen j)) :
    ∀ j, GenPlace t (load (drainsAt j) (s.threads.set n q ++ [])) j (t.gen j) := by
  intro j
  have hl := load_step (w := drainsAt j) q [] hp
  rw [load_nil] at hl
  by_cases hj : touched j
  · exact htouched j hj _ hl
  obtain ⟨hgen,hcur,haim⟩ := hother j hj
  have hold := h.places j
  have hload : load (drainsAt j) (s.threads.set n q ++ []) = load (drainsAt j) s.threads := by omega
  rw [hload, hgen]
  exact { hold with
    owned := fun ho => hbundles ▸ hold.owned ho
    current := hcur.trans hold.current }

variable {i g d : Nat} {x : Generation}

section

variable (h : HostInv s)

include h

theorem put_places (hp : s.threads[n]? = some p)
    (hbundles : t.bundles = s.shared.bundles) (hgen : t.gen = update s.shared.gen i x)
    (hcur : t.current = s.shared.current) (haim : ∀ j, j ≠ i → p.drainsAt j = q.drainsAt j)
    (htarget : ∀ d, d + p.drainsAt i = load (drainsAt i) s.threads + q.drainsAt i →
      GenPlace t d i x) :
    ∀ j, GenPlace t (load (drainsAt j) (s.threads.set n q ++ [])) j (t.gen j) := by
  refine h.move_places hp (· = i) hbundles (fun j hj => ⟨?_,by rw [hcur],haim j hj⟩) ?_
  · rw [hgen, update_of_ne hj]
  · rintro j rfl d hd
    rw [hgen, update_self]
    exact htarget d hd

theorem owned_of_state
    (hst : (s.shared.gen g).state = .published ∨ (s.shared.gen g).state = .draining ∨
      (s.shared.gen g).state = .stopping) :
    (s.shared.gen g).runtimeOwner = true ∧ g < s.shared.bundles := by
  have hplace := h.places g
  cases ho : (s.shared.gen g).runtimeOwner
  · obtain ⟨-,h1,h2,h3⟩ := hplace.free ho
    rcases hst with hs | hs | hs
    · exact absurd hs h1
    · exact absurd hs h2
    · exact absurd hs h3
  · exact ⟨rfl,(hplace.owned ho).1⟩

theorem stopping_of_drains (hp : p ∈ s.threads) (hd : p.drainsAt g = 1) :
    (s.shared.gen g).state = .stopping ∧ load (drainsAt g) s.threads = 1 := by
  have hw := weight_le_load (w := drainsAt g) hp
  have hdr := (h.places g).drains
  cases hs : ((s.shared.gen g).state == .stopping)
  · rw [hs, Bool.toNat_false] at hdr
    omega
  · rw [hs] at hdr
    exact ⟨by simpa using hs,hdr⟩

theorem drains_zero (hst : (s.shared.gen g).state ≠ .stopping) :
    load (drainsAt g) s.threads = 0 := by
  rw [(h.places g).drains, beq_eq_false_iff_ne.2 hst]
  rfl

theorem stopping_rests (hst : (s.shared.gen g).state = .stopping) :
    (s.shared.gen g).activeScopes = 0 ∧ s.shared.current ≠ some g := by
  constructor
  · by_contra hno
    rcases (h.places g).quiet hno with hs | hs <;> simp [hst] at hs
  · intro hc
    have := (h.places g).current.1 hc
    simp [hst] at this

theorem stays (hm : HostMove s.shared p t q) (hst : (s.shared.gen g).state = .stopping)
    (hd : p.drainsAt g = 0) : t.gen g = s.shared.gen g := by
  have hput : ∀ {j : Nat} {x : Generation}, (g ≠ j) →
      update s.shared.gen j x g = s.shared.gen g :=
    fun hj => update_of_ne hj _ _
  have hne : ∀ {j : Nat}, (s.shared.gen j).state ≠ .stopping → g ≠ j := by
    rintro j hj rfl
    exact hj hst
  cases hm
  case refuse => rfl
  case publishFirst j ha hc => exact hput (hne (by simp [ha.built]))
  case publishNext j previous ha hc hprev =>
    have hgp : g ≠ previous := hne (by simp [hprev])
    exact (update_of_ne hgp _ _).trans (hput (hne (by simp [ha.built])))
  case close previous hc hprev => exact hput (hne (by simp [hprev]))
  case acquire c j hc hl hcur hj => exact hput (hne (by simp [hj]))
  case release c hc hl hpos hpos' =>
    refine hput (hne ?_)
    rcases (h.places _).quiet hpos with hs | hs <;> simp [hs]
  case drain j hown hsc hj => exact hput (hne (by rcases hj with hs | hs <;> simp [hs]))
  case owner j x status hx hpe =>
    by_cases hj : g = j
    · subst hj
      have hfree : (s.shared.gen g).state = .built → (s.shared.gen g).runtimeOwner = false := by
        simp [hst]
      rcases hx (h.places g).inv hfree with rfl | hprep
      · exact update_self ..
      · exact absurd hst hprep.before.2.2
    · exact hput hj
  case works j x hpd hqd hx =>
    refine hput ?_
    rintro rfl
    rw [hpd g, if_pos rfl] at hd
    cases hd
  case finish j | fails j status =>
    refine hput ?_
    rintro rfl
    cases (if_pos rfl : (if g = g then 1 else 0) = 1).symm.trans hd

end

section

variable (h : HostInv s)

include h

theorem owner_spec (hx : GenInv (s.shared.gen g) →
      ((s.shared.gen g).state = .built → (s.shared.gen g).runtimeOwner = false) →
      x = s.shared.gen g ∨ Generation.Prepared (s.shared.gen g) x) :
    x = s.shared.gen g ∨ Generation.Prepared (s.shared.gen g) x := by
  refine hx (h.places g).inv fun hst => ?_
  by_contra hown
  have := ((h.places g).owned (by simpa using hown)).2
  simp [hst] at this

theorem works_spec (hp : p ∈ s.threads) (hpd : ∀ j, p.drainsAt j = if g = j then 1 else 0)
    (hx : GenInv (s.shared.gen g) → (s.shared.gen g).state = .stopping →
      Works (s.shared.gen g) p → SameBooks (s.shared.gen g) x ∧ GenInv x ∧ Works x q) :
    SameBooks (s.shared.gen g) x ∧ GenInv x ∧ Works x q := by
  have hpg : p.drainsAt g = 1 := by rw [hpd g, if_pos rfl]
  exact hx (h.places g).inv (h.stopping_of_drains hp hpg).1 (h.working p hp g hpg)

section

variable (hp : s.threads[n]? = some p) (hm : HostMove s.shared p t q)

include hp hm

theorem move_working :
    ∀ r ∈ s.threads.set n q ++ [], ∀ g, r.drainsAt g = 1 → Works (t.gen g) r := by
  have hmem := List.mem_of_getElem? hp
  refine forall_move (T := fun (h : Host) r => ∀ g, r.drainsAt g = 1 → Works (h.gen g) r)
    h.working ?_ (fun _ hr => absurd hr List.not_mem_nil) ?_
  · intro g hg
    cases hm
    case refuse hpe hqe => simp [drainsAt_ended hqe] at hg
    case drain => trivial
    case works j x hpd hqd hx =>
      obtain rfl : j = g := by
        by_contra hj
        rw [hqd g, if_neg hj] at hg
        cases hg
      show Works (update s.shared.gen j x j) q
      rw [update_self]
      exact (h.works_spec hmem hpd hx).2.2
    all_goals cases hg
  · intro j r hj hr hold g hg
    have hrmem := List.mem_of_getElem? hr
    obtain ⟨hst,hone⟩ := h.stopping_of_drains hrmem hg
    have hsum := weight_add_le_load (w := drainsAt g) hr hp hj
    rw [h.stays hm hst (by omega)]
    exact hold g hg

theorem move_attached :
    t.attachedGenerations = tally (fun x => x.runtimeOwner.toNat) t.bundles t.gen := by
  have hmem := List.mem_of_getElem? hp
  have hold := h.attached
  have hattach : ∀ g, Attachable s.shared g → s.shared.attachedGenerations+1 =
      tally (fun x => x.runtimeOwner.toNat) s.shared.bundles (s.shared.attach g).gen :=
    fun g ha => tally_update_succ hold ha.range (by simp [ha.free])
  cases hm
  case refuse => exact hold
  case publishFirst g ha hc => exact hattach g ha
  case publishNext g previous ha hc hprev => exact tally_update_eq (hattach g ha) rfl
  case owner g x status hx hpe =>
    refine tally_update_eq hold ?_
    rcases h.owner_spec hx with rfl | hprep
    · rfl
    · exact congrArg Bool.toNat hprep.owner
  case works g x hpd hqd hx =>
    refine tally_update_eq hold ?_
    exact congrArg Bool.toNat (h.works_spec hmem hpd hx).1.1
  case finish g =>
    have hst := (h.stopping_of_drains hmem (if_pos rfl)).1
    obtain ⟨hown,hlt⟩ := h.owned_of_state (.inr (.inr hst))
    exact tally_update_pred hold hlt (by simp [hown])
  all_goals exact tally_update_eq hold rfl

theorem move_active : t.activeScopes = tally activeScopes t.bundles t.gen := by
  have hmem := List.mem_of_getElem? hp
  have hold := h.active
  cases hm
  case refuse => exact hold
  case publishNext g previous ha hc hprev =>
    have hfirst : s.shared.activeScopes =
        tally activeScopes s.shared.bundles (s.shared.attach g).gen := tally_update_eq hold rfl
    exact tally_update_eq hfirst rfl
  case acquire c g hc hl hcur hst =>
    obtain ⟨-,hlt⟩ := h.owned_of_state (.inl hst)
    exact tally_update_succ hold hlt rfl
  case release c hc hl hpos hpos' =>
    obtain ⟨-,hlt⟩ := h.owned_of_state (((h.places _).quiet hpos).imp_right .inl)
    exact tally_update_pred hold hlt (Nat.succ_pred hpos).symm
  case owner g x status hx hpe =>
    refine tally_update_eq hold ?_
    rcases h.owner_spec hx with rfl | hprep
    · rfl
    · exact hprep.scopes
  case works g x hpd hqd hx =>
    refine tally_update_eq hold ?_
    exact (h.works_spec hmem hpd hx).1.2.1
  all_goals exact tally_update_eq hold rfl

end

theorem move_ids (hm : HostMove s.shared p t q) :
    t.publications.Pairwise (· < ·) ∧ ∀ id ∈ t.publications, id ≤ t.lastGenerationId := by
  obtain ⟨hpair,hle⟩ := h.ids
  have hattach : ∀ g, Attachable s.shared g →
      (s.shared.attach g).publications.Pairwise (· < ·) ∧
        ∀ id ∈ (s.shared.attach g).publications, id ≤ (s.shared.gen g).id := by
    intro g ha
    have hlast := ha.id
    refine ⟨List.pairwise_append.2 ⟨hpair,List.pairwise_singleton ..,?_⟩,?_⟩
    · intro a hmem b hb
      rw [List.mem_singleton.1 hb]
      exact (hle a hmem).trans_lt hlast
    · intro id hid
      rcases List.mem_append.1 hid with hid | hid
      · exact ((hle id hid).trans_lt hlast).le
      · exact (List.mem_singleton.1 hid).le
  cases hm
  case publishFirst g ha _ | publishNext g _ ha _ _ => exact hattach g ha
  all_goals exact ⟨hpair,hle⟩

end

theorem count_update {f : Nat → Generation} (hx : x.activeScopes = (f i).activeScopes) (g : Nat) :
    (update f i x g).activeScopes = (f g).activeScopes := by
  by_cases hg : g = i
  · rw [hg, update_self, hx]
  · rw [update_of_ne hg]

section

variable (h : HostInv s)

include h

theorem move_counted (hp : s.threads[n]? = some p) (hm : HostMove s.shared p t q) (g : Nat) :
    (t.gen g).activeScopes = tally (fun c => (c.on g).toNat) t.scopes t.scope := by
  have hmem := List.mem_of_getElem? hp
  have hold := h.counted g
  cases hm
  case refuse => exact hold
  case publishNext j previous ha hc hprev =>
    have hfirst : ((s.shared.attach j).gen g).activeScopes = (s.shared.gen g).activeScopes := by
      refine count_update ?_ g
      rfl
    refine (count_update ?_ g).trans (hfirst.trans hold)
    rfl
  case acquire c j hc hl hcur hst =>
    show (update s.shared.gen j _ g).activeScopes =
      tally _ s.shared.scopes (update s.shared.scope c _)
    by_cases hg : g = j
    · subst hg
      rw [update_self]
      refine tally_update_succ hold hc ?_
      simp [Scope.on, hl]
    · rw [update_of_ne hg]
      refine tally_update_eq hold ?_
      simp [Scope.on, hl, Ne.symm hg]
  case release c hc hl hpos hpos' =>
    show (update s.shared.gen (s.shared.scope c).generation _ g).activeScopes =
      tally _ s.shared.scopes (update s.shared.scope c _)
    by_cases hg : g = (s.shared.scope c).generation
    · subst hg
      rw [update_self]
      refine tally_update_pred hold hc ?_
      simp [Scope.on, hl]
    · rw [update_of_ne hg]
      refine tally_update_eq hold ?_
      have hoff : ((s.shared.scope c).generation == g) = false := by simpa using Ne.symm hg
      simp [Scope.on, hoff]
  case owner j x status hx hpe =>
    refine (count_update ?_ g).trans hold
    rcases h.owner_spec hx with rfl | hprep
    · rfl
    · exact hprep.scopes
  case works j x hpd hqd hx =>
    exact (count_update (h.works_spec hmem hpd hx).1.2.1 g).trans hold
  all_goals
    refine (count_update ?_ g).trans hold
    rfl

theorem withdrawn (hst : (s.shared.gen g).state = .published) (hb : t.bundles = s.shared.bundles)
    (hcur : t.current ≠ some g) (hd : d = load (drainsAt g) s.threads) :
    GenPlace t d g { s.shared.gen g with state := .draining } := by
  have hplace := h.places g
  obtain ⟨hown,hlt⟩ := h.owned_of_state (.inl hst)
  exact
    { inv := hplace.inv.setState nofun
      owned := fun _ => ⟨hb ▸ hlt,.inr (.inl rfl)⟩
      free := fun hno => absurd hown (by simpa using hno)
      publishable := fun _ => hplace.publishable (.inl hst)
      quiet := fun _ => .inr rfl
      current := ⟨fun hc => absurd hc hcur,nofun⟩
      drains := by
        rw [hd, hplace.drains, hst]
        rfl }

theorem attached_place (ha : Attachable s.shared g) (hb : t.bundles = s.shared.bundles)
    (hcur : t.current = some g) (hd : d = load (drainsAt g) s.threads) :
    GenPlace t d g { s.shared.gen g with runtimeOwner := true, state := .published } := by
  have hplace := h.places g
  exact
    { inv := ⟨hplace.inv.held,hplace.inv.detached,hplace.inv.active,nofun⟩
      owned := fun _ => ⟨hb ▸ ha.range,.inl rfl⟩
      free := nofun
      publishable := fun _ => ha.publishable
      quiet := fun _ => .inl rfl
      current := ⟨fun _ => rfl,fun _ => hcur⟩
      drains := by
        rw [hd, hplace.drains, ha.built]
        rfl }

theorem counted_place {k : Nat}
    (hst : (s.shared.gen g).state = .published ∨ (s.shared.gen g).state = .draining)
    (hb : t.bundles = s.shared.bundles) (hcur : t.current = s.shared.current)
    (hd : d = load (drainsAt g) s.threads) :
    GenPlace t d g { s.shared.gen g with activeScopes := k } := by
  have hplace := h.places g
  obtain ⟨hown,-⟩ := h.owned_of_state (hst.imp_right .inl)
  exact
    { inv := ⟨hplace.inv.held,hplace.inv.detached,hplace.inv.active,hplace.inv.drained⟩
      owned := fun ho => hb ▸ hplace.owned ho
      free := fun hno => absurd hown (by simpa using hno)
      publishable := hplace.publishable
      quiet := fun _ => hst
      current := hcur ▸ hplace.current
      drains := hd.trans hplace.drains }

theorem move_all_places (hp : s.threads[n]? = some p) (hm : HostMove s.shared p t q) :
    ∀ j, GenPlace t (load (drainsAt j) (s.threads.set n q ++ [])) j (t.gen j) := by
  have hmem := List.mem_of_getElem? hp
  cases hm
  case refuse hpe hqe =>
    refine h.move_places hp (fun _ => False) rfl (fun j _ => ⟨rfl,Iff.rfl,?_⟩) nofun
    rw [drainsAt_entry hpe, drainsAt_ended hqe]
  case publishFirst g ha hc =>
    refine h.move_places hp (· = g) rfl (fun j hj => ⟨update_of_ne hj _ _,?_,rfl⟩) ?_
    · rw [hc]
      exact ⟨fun heq => absurd (Option.some.inj heq).symm hj,nofun⟩
    · rintro j rfl d hd
      show GenPlace _ d j (update s.shared.gen j _ j)
      rw [update_self]
      exact h.attached_place ha rfl rfl hd
  case publishNext g previous ha hc hst =>
    have hne : g ≠ previous := by
      rintro rfl
      simp [ha.built] at hst
    refine h.move_places hp (fun j => j = g ∨ j = previous) rfl (fun j hj => ⟨?_,?_,rfl⟩) ?_
    · rw [not_or] at hj
      exact (update_of_ne hj.2 _ _).trans (update_of_ne hj.1 _ _)
    · rw [not_or] at hj
      rw [hc]
      exact ⟨fun heq => absurd (Option.some.inj heq).symm hj.1,
        fun heq => absurd (Option.some.inj heq).symm hj.2⟩
    · rintro j (rfl | rfl) d hd
      · show GenPlace _ d j (update (s.shared.attach j).gen previous _ j)
        rw [update_of_ne hne]
        show GenPlace _ d j (update s.shared.gen j _ j)
        rw [update_self]
        exact h.attached_place ha rfl rfl hd
      · have hkeep : (s.shared.attach g).gen j = s.shared.gen j := update_of_ne hne.symm _ _
        show GenPlace _ d j (update (s.shared.attach g).gen j _ j)
        rw [update_self, hkeep]
        exact h.withdrawn hst rfl (fun heq => hne (Option.some.inj heq)) hd
  case close previous hc hst =>
    refine h.move_places hp (· = previous) rfl
      (fun j hj => ⟨update_of_ne hj _ _,?_,rfl⟩) ?_
    · rw [hc]
      exact ⟨nofun,fun heq => absurd (Option.some.inj heq).symm hj⟩
    · rintro j rfl d hd
      show GenPlace _ d j (update s.shared.gen j _ j)
      rw [update_self]
      exact h.withdrawn hst rfl nofun hd
  case acquire c g hc hl hcur hst =>
    refine h.put_places hp rfl rfl rfl (fun _ _ => rfl) fun d hd => ?_
    exact h.counted_place (.inl hst) rfl rfl hd
  case release c hc hl hpos hpos' =>
    refine h.put_places hp rfl rfl rfl (fun _ _ => rfl) fun d hd => ?_
    exact h.counted_place ((h.places _).quiet hpos) rfl rfl hd
  case drain g hown hsc hst =>
    have hplace := h.places g
    refine h.put_places hp rfl rfl rfl (fun j hj => (if_neg (Ne.symm hj)).symm) fun d hd => ?_
    have hzero := h.drains_zero (g := g) (by rcases hst with hs | hs <;> simp [hs])
    rw [show (stopping g).drainsAt g = 1 from if_pos rfl, hzero] at hd
    exact
      { inv := hplace.inv.setState nofun
        owned := fun _ => ⟨(hplace.owned hown).1,.inr (.inr (.inl rfl))⟩
        free := fun hno => absurd hown (by simpa using hno)
        publishable := nofun
        quiet := fun hno => absurd hsc hno
        current := by
          refine ⟨fun hc => ?_,nofun⟩
          have := hplace.current.1 hc
          rcases hst with hs | hs <;> simp [hs] at this
        drains := hd }
  case owner g x status hx hpe =>
    have hplace := h.places g
    refine h.put_places hp rfl rfl rfl (fun j _ => drainsAt_entry hpe j) fun d hd => ?_
    rw [drainsAt_entry hpe] at hd
    obtain rfl : d = load (drainsAt g) s.threads := hd
    rcases h.owner_spec hx with rfl | hprep
    · exact { hplace with }
    exact
      { inv := hprep.inv
        owned := by
          intro ho
          rw [hprep.owner] at ho
          exact ⟨(hplace.owned ho).1,.inr (.inr (.inr (hprep.owned ho)))⟩
        free := by
          intro ho
          rw [hprep.owner] at ho
          exact ⟨hprep.scopes.trans (hplace.free ho).1,hprep.after⟩
        publishable := by
          rintro (hs | hs)
          · exact absurd hs hprep.after.1
          · exact absurd hs hprep.after.2.1
        quiet := by
          intro hno
          rw [hprep.scopes] at hno
          rcases hplace.quiet hno with hs | hs
          · exact absurd hs hprep.before.1
          · exact absurd hs hprep.before.2.1
        current := by
          refine ⟨fun hc => absurd (hplace.current.1 hc) hprep.before.1,fun hs => ?_⟩
          exact absurd hs hprep.after.1
        drains := by
          rw [hplace.drains, beq_eq_false_iff_ne.2 hprep.before.2.2,
            beq_eq_false_iff_ne.2 hprep.after.2.2] }
  case works g x hpd hqd hx =>
    have hplace := h.places g
    obtain ⟨⟨hown,hsc,hst⟩,hinv,-⟩ := h.works_spec hmem hpd hx
    have hstop := (h.stopping_of_drains hmem (by rw [hpd g, if_pos rfl])).1
    refine h.put_places hp rfl rfl rfl (fun j _ => (hpd j).trans (hqd j).symm) fun d hd => ?_
    rw [hpd g, hqd g] at hd
    obtain rfl : d = load (drainsAt g) s.threads := Nat.add_right_cancel hd
    exact
      { inv := hinv
        owned := fun ho => by
          rw [hst]
          exact hplace.owned (hown ▸ ho)
        free := fun ho => by
          rw [hsc, hst]
          exact hplace.free (hown ▸ ho)
        publishable := by simp [hst, hstop]
        quiet := fun hno => by
          rw [hst]
          exact hplace.quiet (hsc ▸ hno)
        current := by
          rw [hst]
          exact hplace.current
        drains := by
          rw [hst]
          exact hplace.drains }
  case finish g =>
    have hplace := h.places g
    obtain ⟨hst,hone⟩ := h.stopping_of_drains hmem (if_pos rfl)
    obtain ⟨hempty,hmods⟩ := h.working _ hmem g (if_pos rfl)
    refine h.put_places hp rfl rfl rfl (fun j hj => if_neg (Ne.symm hj)) fun d hd => ?_
    rw [show (clearing g).drainsAt g = 1 from if_pos rfl, hone] at hd
    obtain ⟨hsc,hcur⟩ := h.stopping_rests hst
    exact
      { inv := hplace.inv.clear hmods hempty
        owned := nofun
        free := fun _ => ⟨hsc,nofun,nofun,nofun⟩
        publishable := nofun
        quiet := fun hno => absurd hsc hno
        current := ⟨fun hc => absurd hc hcur,nofun⟩
        drains := Nat.add_right_cancel hd }
  case fails g status =>
    have hplace := h.places g
    obtain ⟨hst,hone⟩ := h.stopping_of_drains hmem (if_pos rfl)
    obtain ⟨hown,hlt⟩ := h.owned_of_state (.inr (.inr hst))
    refine h.put_places hp rfl rfl rfl (fun j hj => if_neg (Ne.symm hj)) fun d hd => ?_
    rw [show (failing g status).drainsAt g = 1 from if_pos rfl, hone] at hd
    obtain ⟨hsc,hcur⟩ := h.stopping_rests hst
    exact
      { inv := hplace.inv.setState nofun
        owned := fun _ => ⟨hlt,.inr (.inr (.inr rfl))⟩
        free := fun hno => absurd hown (by simpa using hno)
        publishable := nofun
        quiet := fun hno => absurd hsc hno
        current := ⟨fun hc => absurd hc hcur,nofun⟩
        drains := Nat.add_right_cancel hd }

theorem move (hp : s.threads[n]? = some p) (hm : HostMove s.shared p t q) :
    HostInv { shared := t, threads := s.threads.set n q ++ [] } where
  places := h.move_all_places hp hm
  attached := h.move_attached hp hm
  active := h.move_active hp hm
  counted := h.move_counted hp hm
  working := h.move_working hp hm
  ids := h.move_ids hm

end

theorem enter (h : HostInv s) (hp : p.entry = true) :
    HostInv { shared := s.shared, threads := s.threads ++ [p] } := by
  refine { h with places := fun g => ?_, working := fun r hr g hg => ?_ }
  · rw [load_enter _ (drainsAt_entry hp g)]
    exact h.places g
  · rcases List.mem_append.1 hr with hr | hr
    · exact h.working r hr g hg
    · rw [List.mem_singleton.1 hr, drainsAt_entry hp] at hg
      cases hg

theorem step {a : HostAction} {u : HostSystem} (h : HostInv s) (hs : hostStep s a = some u) :
    HostInv u := by
  rcases step_cases hs with ⟨n,c,p,t,q,new,rfl,hp,hm,rfl⟩ | ⟨p,rfl,hp,rfl⟩
  · obtain ⟨hmove,rfl⟩ := HostMove.of_move hm
    exact h.move hp hmove
  · exact h.enter hp

theorem reach {ok : HostSystem → HostAction → Prop} (hs : Reach hostStep HostReady ok s) :
    HostInv s :=
  hs.invariant (fun _ => ready) fun _ _ _ h _ => h.step

end HostInv

/-! ### What a host runtime guarantees -/

def Host.owned (h : Host) : Finset Nat :=
  (Finset.range h.bundles).filter fun g => (h.gen g).runtimeOwner = true

structure Pinned (s : HostSystem) (g : Nat) : Prop where
  owned : g ∈ s.shared.owned
  active : (s.shared.gen g).components.state = .active
  objects : ∀ i < (s.shared.gen g).components.deploymentCount,
    ∃ x, (s.shared.gen g).storage.instances[i]? = some x ∧ x.active = true ∧ x.object = .valid
  admitted : (s.shared.gen g).state = .published ∨ (s.shared.gen g).state = .draining
  undrained : ∀ p ∈ s.threads, p.drainsAt g = 0

structure Bare (x : Generation) : Prop where
  leases : x.held = []
  modules : x.storage.modules = []
  objects : ∀ i ∈ x.storage.instances, i.active = false ∧ i.object = .empty

structure HostSafe (s : HostSystem) : Prop where
  activeScopes : s.shared.activeScopes = ∑ g ∈ s.shared.owned, (s.shared.gen g).activeScopes
  attached : s.shared.attachedGenerations = s.shared.owned.card
  published : ∀ g g', (s.shared.gen g).state = .published → (s.shared.gen g').state = .published →
    g = g'
  ids : s.shared.publications.Pairwise (· < ·)
  pinned : ∀ c < s.shared.scopes, (s.shared.scope c).live = true →
    Pinned s (s.shared.scope c).generation
  drained : ∀ g, (s.shared.gen g).state = .drained → Bare (s.shared.gen g)

theorem Generation.publishable_active {x : Generation} (h : x.publishable = true) :
    x.components.state = .active ∧ ∀ i < x.components.deploymentCount,
      ∃ y, x.storage.instances[i]? = some y ∧ y.active = true ∧ y.object = .valid := by
  simp only [publishable, planValid, Bool.and_eq_true, beq_iff_eq, List.all_eq_true,
    List.mem_range] at h
  obtain ⟨⟨⟨⟨⟨⟨-,hactive⟩,-⟩,-⟩,-⟩,-⟩,hplan⟩ := h
  obtain ⟨⟨⟨⟨-,hall⟩,-⟩,-⟩,-⟩ := hplan
  refine ⟨hactive,fun i hi => ?_⟩
  obtain ⟨y,hy,hgood⟩ := (Option.any_eq_true _ _).1 (hall i hi).2
  rw [Bool.and_eq_true, beq_iff_eq] at hgood
  exact ⟨y,hy,hgood⟩

namespace HostInv

variable {s : HostSystem}

theorem sum_owned (h : HostInv s) :
    s.shared.activeScopes = ∑ g ∈ s.shared.owned, (s.shared.gen g).activeScopes := by
  rw [h.active]
  refine (Finset.sum_filter_of_ne fun g _ hne => ?_).symm
  by_contra hown
  exact hne ((h.places g).free (by simpa using hown)).1

theorem live_pins (h : HostInv s) {c : Nat} (hc : c < s.shared.scopes)
    (hl : (s.shared.scope c).live = true) : Pinned s (s.shared.scope c).generation := by
  obtain ⟨g,hg⟩ : ∃ g, (s.shared.scope c).generation = g := ⟨_,rfl⟩
  rw [hg]
  have hplace := h.places g
  have hcount : (s.shared.gen g).activeScopes ≠ 0 := by
    have hw := weight_le_tally (w := fun c => (Scope.on g c).toNat) (f := s.shared.scope) hc
    have hone : (Scope.on g (s.shared.scope c)).toNat = 1 := by simp [Scope.on, hl, hg]
    rw [h.counted g]
    omega
  have hst := hplace.quiet hcount
  obtain ⟨hown,hlt⟩ := h.owned_of_state (hst.imp_right .inl)
  obtain ⟨hactive,hobjects⟩ := publishable_active (hplace.publishable hst)
  refine ⟨Finset.mem_filter.2 ⟨Finset.mem_range.2 hlt,hown⟩,hactive,hobjects,hst,?_⟩
  intro p hp
  have hw := weight_le_load (w := drainsAt g) hp
  have hzero := h.drains_zero (g := g) (by rcases hst with hs | hs <;> simp [hs])
  omega

theorem drained_bare (h : HostInv s) {g : Nat} (hst : (s.shared.gen g).state = .drained) :
    Bare (s.shared.gen g) := by
  have hinv := (h.places g).inv
  obtain ⟨hmods,hempty⟩ := hinv.drained hst
  refine ⟨?_,hmods,fun i hi => ?_⟩
  · have hheld := hinv.held
    rw [hmods] at hheld
    exact hheld.eq_nil
  · have := List.all_eq_true.1 hempty i hi
    simpa using this

theorem safe (h : HostInv s) : HostSafe s where
  activeScopes := h.sum_owned
  attached := h.attached.trans (tally_toNat _)
  published g g' hg hg' :=
    Option.some.inj (((h.places g).current.2 hg).symm.trans ((h.places g').current.2 hg'))
  ids := h.ids.1
  pinned _ := h.live_pins
  drained _ := h.drained_bare

end HostInv

/-- In every interleaving the runtime keeps its guarantees. -/
theorem service_host_safe {s : HostSystem} (hs : Reach hostStep HostReady anyAction s) :
    HostSafe s :=
  (HostInv.reach hs).safe

def oneComponent (id : Nat) : BuildArgs where
  id := id
  registry := true
  storage :=
    { deployments := [{ provider := some { component := { address := 1 } } }]
      deploymentCapacity := 1
      instances := [{ object := .valid, active := true }]
      activationOrder := [0]
      activationCapacity := 1
      modules := [⟨⟨1, 1⟩, ⟨⟨1, 1⟩, id, 1⟩, true⟩] }

/-- A generation is published and a scope opened on it; a second one takes its place and gets a
scope too; the first is drained when its scope is released.  The destroy callback of its object
writes into the cleared record: the drain fails, the record is repaired and the drain repeated. -/
def replaceAndDrain : List HostAction :=
  [.enter (.build 0), .run 0 (.build (oneComponent 1) (fun _ => .ok) .built),
    .enter (.publish 0), .run 1 .go, .enter (.acquire 0), .run 2 .go,
    .enter (.build 1), .run 3 (.build (oneComponent 2) (fun _ => .ok) .built),
    .enter (.publish 1), .run 4 .go, .enter (.acquire 1), .run 5 .go,
    .enter (.drain 0), .run 6 .go, .enter (.release 0), .run 7 .go,
    .enter (.drain 0), .run 8 .go,
    .run 8 (.world { destroy := fun _ _ x => { x with object := .malformed } } fun _ => .ok),
    .run 8 .go, .enter (.repair 0 0), .run 9 .go,
    .enter (.drain 0), .run 10 .go, .run 10 (.world {} fun _ => .ok),
    .run 10 (.world {} fun _ => .ok), .run 10 .go]

theorem replaceAndDrain_safe : ∃ s,
    exec hostStep { shared := { bundles := 2, scopes := 2 }, threads := [] } replaceAndDrain =
      some s ∧
    ((s.shared.gen 0).state = .drained ∧ (s.shared.gen 1).state = .published ∧
      (s.shared.scope 1).live = true ∧ s.shared.publications = [1, 2] ∧
      s.threads[6]? = some (.returned .busy) ∧
      s.threads[8]? = some (.returned .configuratorError)) ∧ HostSafe s :=
  exec_shows_and (by decide +kernel) fun _ he _ =>
    service_host_safe (Reach.exec (.start ⟨rfl,2,2,rfl⟩) (fun _ _ _ => trivial) he)

end Salts.ServiceHost
