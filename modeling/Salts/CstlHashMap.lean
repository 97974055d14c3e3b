import Salts.CstlBasic
import Salts.TableSum

/-!
The hash map of `hash_map.c`: open addressing with linear probing and tombstones in a table whose
capacity is a power of two.
-/

variable {i s h₀ : Nat}

namespace Salts.Cstl

structure KeyTraits (K : Type) where
  hash : K → Nat
  equal : K → K → Bool
  refl : ∀ a, equal a a = true
  symm : ∀ a b, equal a b = true → equal b a = true
  trans : ∀ a b c, equal a b = true → equal b c = true → equal a c = true
  consistent : ∀ a b, equal a b = true → hash a = hash b

/-- A state byte with the hash, key and value that only an occupied slot has. -/
inductive HashSlot (K V : Type)
  | empty
  | occupied (hash : Nat) (key : K) (value : V)
  | tombstone

structure HashMap (K V : Type) where
  slots : Nat → HashSlot K V
  capacity : Nat
  size : Nat
  tombstones : Nat
  entryLimit : Nat
  generation : Nat

/-- What one call meets outside the map: the results of `hash_prepare` for its key and its value,
and of `hash_map_allocate` for a capacity. -/
structure HashEnv where
  prepareKey : StlStatus
  prepareValue : StlStatus
  allocate : Nat → StlStatus

def hashMinBuckets : Nat := 16

def growBuckets (requested : Nat) : Nat → Nat → Except StlStatus Nat
  | 0, _ => .error .capacityExceeded
  | fuel + 1, buckets =>
    if buckets < requested then
      if buckets > sizeMax / 2 then .error .capacityExceeded
      else growBuckets requested fuel (buckets * 2)
    else .ok buckets

def bucketsForEntries (entries : Nat) : Except StlStatus Nat :=
  if entries = 0 then .ok 0
  else if entries / 7 > sizeMax / 3 then .error .capacityExceeded
  else
    let extra := entries / 7 * 3 + (entries % 7 * 3 + 6) / 7
    if extra > sizeMax - entries then .error .capacityExceeded
    else
      let requested := max (entries + extra) hashMinBuckets
      growBuckets requested 64 hashMinBuckets

def hashMapInit (K V : Type) (entryLimit generation : Nat) : HashMap K V :=
  ⟨fun _ => .empty, 0, 0, 0, entryLimit, wrap (generation + 1)⟩

namespace HashMap

variable {K V : Type} (t : KeyTraits K)

def keyHash (key : K) : Nat := if wrap (t.hash key) = 0 then 1 else wrap (t.hash key)

def probeSlot (capacity hash probe : Nat) : Nat := wrap (hash + probe) &&& (capacity - 1)

def findFrom (m : HashMap K V) (key : K) (hash : Nat) : Nat → Nat → Option Nat
  | 0, _ => none
  | left + 1, probe =>
    let slot := probeSlot m.capacity hash probe
    match m.slots slot with
    | .empty => none
    | .occupied h k _ =>
      if h == hash && t.equal k key then some slot else findFrom m key hash left (probe + 1)
    | .tombstone => findFrom m key hash left (probe + 1)

def findSlot (m : HashMap K V) (key : K) (hash : Nat) : Option Nat :=
  findFrom t m key hash m.capacity 0

def insertFrom (m : HashMap K V) (hash : Nat) : Nat → Nat → Option Nat → Option Nat
  | 0, _, firstTombstone => firstTombstone
  | left + 1, probe, firstTombstone =>
    let slot := probeSlot m.capacity hash probe
    match m.slots slot with
    | .tombstone => insertFrom m hash left (probe + 1) (firstTombstone.or (some slot))
    | .empty => some (firstTombstone.getD slot)
    | .occupied .. => insertFrom m hash left (probe + 1) firstTombstone

/-- The slot for a new entry; `none` is the `SIZE_MAX` of a table without a free slot. -/
def insertSlot (m : HashMap K V) (hash : Nat) : Option Nat :=
  insertFrom m hash m.capacity 0 none

def setSlot (m : HashMap K V) (slot : Nat) (s : HashSlot K V) : HashMap K V :=
  { m with slots := Function.update m.slots slot s }

def emptied (m : HashMap K V) (capacity : Nat) : HashMap K V :=
  { m with slots := fun _ => .empty, size := 0, capacity := capacity, tombstones := 0 }

def rehashInsert (m : HashMap K V) (hash : Nat) (key : K) (value : V) : Option (HashMap K V) := do
  let slot ← m.insertSlot hash
  return { m.setSlot slot (.occupied hash key value) with size := m.size + 1 }

def rehashFrom (old : HashMap K V) : Nat → Nat → HashMap K V → Option (HashMap K V)
  | 0, _, next => some next
  | left + 1, slot, next =>
    match old.slots slot with
    | .occupied hash key value => do
        let next ← next.rehashInsert hash key value
        rehashFrom old left (slot + 1) next
    | _ => rehashFrom old left (slot + 1) next

def rehash (env : HashEnv) (m : HashMap K V) (capacity : Nat) : Option (StlStatus × HashMap K V) :=
  if env.allocate capacity ≠ .ok then some (env.allocate capacity, m)
  else (rehashFrom m m.capacity 0 (m.emptied capacity)).map (.ok, ·)

/-- The growth check that `hash_map_ensure_insert` and `hash_map_reserve` share. -/
def mustGrow (m : HashMap K V) (buckets : Nat) : Prop :=
  buckets > m.capacity ∨ (m.tombstones > m.size ∧ m.capacity ≠ 0)

instance (m : HashMap K V) (buckets : Nat) : Decidable (m.mustGrow buckets) :=
  inferInstanceAs (Decidable (_ ∨ _))

def ensureInsert (env : HashEnv) (m : HashMap K V) : Option (StlStatus × HashMap K V) :=
  if m.size = sizeMax then some (.capacityExceeded, m)
  else
    match bucketsForEntries (m.size + 1) with
    | .error status => some (status, m)
    | .ok buckets =>
      if m.mustGrow buckets then rehash env m (max buckets m.capacity) else some (.ok, m)

def place (m : HashMap K V) (hash : Nat) (key : K) (value : V) : Option (HashMap K V) := do
  let slot ← m.insertSlot hash
  let tombstones := match m.slots slot with
    | .tombstone => m.tombstones - 1
    | _ => m.tombstones
  return { m.setSlot slot (.occupied hash key value) with
    size := m.size + 1, tombstones := tombstones, generation := wrap (m.generation + 1) }

def put (env : HashEnv) (m : HashMap K V) (key : K) (value : V) :
    Option (StlStatus × HashMap K V) :=
  let hash := keyHash t key
  match findSlot t m key hash with
  | some slot =>
    if env.prepareValue ≠ .ok then some (env.prepareValue, m)
    else
      match m.slots slot with
      | .occupied h k _ =>
        some (.ok, { m.setSlot slot (.occupied h k value) with
          generation := wrap (m.generation + 1) })
      | _ => none
  | none =>
    if m.size ≥ m.entryLimit then some (.capacityExceeded, m)
    else if env.prepareKey ≠ .ok then some (env.prepareKey, m)
    else if env.prepareValue ≠ .ok then some (env.prepareValue, m)
    else do
      let (status, m) ← ensureInsert env m
      if status ≠ .ok then return (status, m)
      let m ← m.place hash key value
      return (.ok, m)

def valueAt (m : HashMap K V) (slot : Nat) : Option V :=
  match m.slots slot with
  | .occupied _ _ value => some value
  | _ => none

def get (m : HashMap K V) (key : K) : Option V :=
  (findSlot t m key (keyHash t key)).bind m.valueAt

def bury (m : HashMap K V) (slot : Nat) : HashMap K V :=
  { m.setSlot slot .tombstone with
    size := m.size - 1, tombstones := m.tombstones + 1, generation := wrap (m.generation + 1) }

/-- `hash_map_remove`; the second component is what it moves to `out_value`. -/
def remove (m : HashMap K V) (key : K) : StlStatus × Option V × HashMap K V :=
  match findSlot t m key (keyHash t key) with
  | none => (.notFound, none, m)
  | some slot => (.ok, m.valueAt slot, m.bury slot)

def clear (m : HashMap K V) : HashMap K V :=
  if m.size ≠ 0 then { m.emptied m.capacity with generation := wrap (m.generation + 1) } else m

def reserve (env : HashEnv) (m : HashMap K V) (minEntries : Nat) :
    Option (StlStatus × HashMap K V) :=
  if minEntries > m.entryLimit then some (.capacityExceeded, m)
  else
    match bucketsForEntries minEntries with
    | .error status => some (status, m)
    | .ok buckets =>
      if m.mustGrow buckets then
        (rehash env m (max buckets m.capacity)).map fun (status, next) =>
          (status, if status = .ok then { next with generation := wrap (next.generation + 1) }
            else next)
      else some (.ok, m)

end HashMap

/-! ### Probing -/

open TableSum

def HashSlot.isOccupied {K V : Type} : HashSlot K V → Bool
  | .occupied .. => true
  | _ => false

def HashSlot.isTombstone {K V : Type} : HashSlot K V → Bool
  | .tombstone => true
  | _ => false

@[simp] theorem HashSlot.isOccupied_occupied {K V : Type} (h : Nat) (k : K) (v : V) :
    (HashSlot.occupied h k v).isOccupied = true := rfl

@[simp] theorem HashSlot.isTombstone_occupied {K V : Type} (h : Nat) (k : K) (v : V) :
    (HashSlot.occupied h k v).isTombstone = false := rfl

namespace HashMap

variable {K V : Type} {t : KeyTraits K} {m : HashMap K V}

def Reaches (m : HashMap K V) (hash slot : Nat) : Prop :=
  ∃ p < m.capacity, slot = probeSlot m.capacity hash p ∧
    ∀ q < p, m.slots (probeSlot m.capacity hash q) ≠ .empty

def Shape (capacity : Nat) : Prop := capacity = 0 ∨ ∃ j, 4 ≤ j ∧ j ≤ 63 ∧ capacity = 2 ^ j

/-- The table of a map: its counters count, and every entry stands once, where the probes of its
own hash come. -/
structure TableInv (t : KeyTraits K) (m : HashMap K V) : Prop where
  shape : Shape m.capacity
  size : m.size = tally (fun s : HashSlot K V => s.isOccupied.toNat) m.capacity m.slots
  tombstones : m.tombstones = tally (fun s : HashSlot K V => s.isTombstone.toNat) m.capacity m.slots
  placed : ∀ {i h k v}, i < m.capacity → m.slots i = .occupied h k v →
    h = keyHash t k ∧ m.Reaches h i
  distinct : ∀ {i j h h' k k' v v'}, i < m.capacity → j < m.capacity →
    m.slots i = .occupied h k v → m.slots j = .occupied h' k' v' → t.equal k k' = true → i = j

def Stored (t : KeyTraits K) (m : HashMap K V) (key : K) (value : V) : Prop :=
  ∃ i < m.capacity, ∃ h k, m.slots i = .occupied h k value ∧ t.equal k key = true

theorem keyHash_eq {a b : K} (h : t.equal a b = true) : keyHash t a = keyHash t b := by
  unfold keyHash
  rw [t.consistent a b h]

section Probe

variable {j : Nat} (hj : j ≤ 63)

include hj

theorem probeSlot_eq (hash p : Nat) : probeSlot (2 ^ j) hash p = (hash + p) % 2 ^ j := by
  have hdvd : 2 ^ j ∣ 2 ^ 64 := Nat.pow_dvd_pow 2 (by omega)
  rw [probeSlot, Nat.and_two_pow_sub_one_eq_mod, wrap, Nat.mod_mod_of_dvd _ hdvd]

theorem probeSlot_lt (hash p : Nat) : probeSlot (2 ^ j) hash p < 2 ^ j := by
  rw [probeSlot_eq hj]
  exact Nat.mod_lt _ (Nat.two_pow_pos j)

theorem exists_probe (hash : Nat) (hi : i < 2 ^ j) : ∃ p < 2 ^ j, probeSlot (2 ^ j) hash p = i := by
  have hpos := Nat.two_pow_pos j
  refine ⟨(i+(2 ^ j-hash % 2 ^ j)) % 2 ^ j,Nat.mod_lt _ hpos,?_⟩
  rw [probeSlot_eq hj, Nat.add_mod_mod, ← Nat.mod_add_mod,
    show hash % 2 ^ j+(i+(2 ^ j-hash % 2 ^ j)) = i+2 ^ j by omega, Nat.add_mod_right,
    Nat.mod_eq_of_lt hi]

end Probe

theorem TableInv.probeSlot_lt (h : TableInv t m) (hpos : 0 < m.capacity) (hash p : Nat) :
    probeSlot m.capacity hash p < m.capacity := by
  obtain h0 | ⟨j,-,hj,hcap⟩ := h.shape
  · omega
  · rw [hcap]
    exact HashMap.probeSlot_lt hj hash p

variable {key k : K} {hash left p slot q : Nat}

theorem findFrom_some (h : findFrom t m key hash left p = some slot) :
    ∃ k v, (∃ q, slot = probeSlot m.capacity hash q) ∧ m.slots slot = .occupied hash k v ∧
      t.equal k key = true := by
  induction left generalizing p with
  | zero => cases h
  | succ left ih =>
    rw [findFrom] at h
    split at h
    · cases h
    · rename_i h' k v hslot
      split at h
      · rename_i hmatch
        obtain ⟨rfl,hequal⟩ : h' = hash ∧ t.equal k key = true := by simpa using hmatch
        cases h
        exact ⟨k,v,⟨p,rfl⟩,hslot,hequal⟩
      · exact ih h
    · exact ih h

theorem findFrom_isSome {v : V} (hpq : p ≤ q)
    (hq : q < p + left) (hslot : m.slots (probeSlot m.capacity hash q) = .occupied hash k v)
    (hequal : t.equal k key = true)
    (hway : ∀ r, p ≤ r → r < q → m.slots (probeSlot m.capacity hash r) ≠ .empty) :
    (findFrom t m key hash left p).isSome = true := by
  induction left generalizing p with
  | zero => omega
  | succ left ih =>
    rw [findFrom]
    by_cases hhere : p = q
    · subst hhere
      simp [hslot, hequal]
    · have hrest := ih (p := p+1) (by omega) (by omega) fun r hr => hway r (by omega)
      split
      · exact absurd ‹_› (hway p le_rfl (by omega))
      · split
        · rfl
        · exact hrest
      · exact hrest

theorem TableInv.find (h : TableInv t m) {i h' : Nat} {v : V} (hi : i < m.capacity)
    (hslot : m.slots i = .occupied h' k v) (hequal : t.equal k key = true) :
    findSlot t m key (keyHash t key) = some i := by
  obtain ⟨rfl,p,hp,rfl,hway⟩ := h.placed hi hslot
  rw [keyHash_eq hequal] at hslot hway ⊢
  have hsome : (findSlot t m key (keyHash t key)).isSome = true :=
    findFrom_isSome (Nat.zero_le p) (by omega) hslot hequal fun r _ hr => hway r hr
  obtain ⟨slot,hfound⟩ := Option.isSome_iff_exists.1 hsome
  obtain ⟨k',v',⟨q,rfl⟩,hslot',hequal'⟩ := findFrom_some hfound
  have hsame := h.distinct (h.probeSlot_lt (by omega) _ q) (h.probeSlot_lt (by omega) _ p) hslot'
    hslot (t.trans _ _ _ hequal' (t.symm _ _ hequal))
  rw [hfound, hsame]

theorem TableInv.find_some (h : TableInv t m)
    (hfound : findSlot t m key (keyHash t key) = some slot) :
    slot < m.capacity ∧ ∃ k v, m.slots slot = .occupied (keyHash t key) k v ∧
      t.equal k key = true := by
  obtain ⟨k,v,⟨q,rfl⟩,hslot,hequal⟩ := findFrom_some hfound
  have hpos : 0 < m.capacity := by
    rcases Nat.eq_zero_or_pos m.capacity with h0 | hpos
    · rw [findSlot, h0] at hfound
      cases hfound
    · exact hpos
  exact ⟨h.probeSlot_lt hpos _ q,k,v,hslot,hequal⟩

theorem TableInv.get_eq_some (h : TableInv t m) {value : V} :
    m.get t key = some value ↔ Stored t m key value := by
  unfold get
  rw [Option.bind_eq_some_iff]
  constructor
  · rintro ⟨slot,hfound,hvalue⟩
    obtain ⟨hlt,k,v,hslot,hequal⟩ := h.find_some hfound
    rw [valueAt, hslot] at hvalue
    cases hvalue
    exact ⟨slot,hlt,_,k,hslot,hequal⟩
  · rintro ⟨i,hi,h',k,hslot,hequal⟩
    exact ⟨i,h.find hi hslot hequal,by rw [valueAt, hslot]⟩

theorem TableInv.not_stored (h : TableInv t m)
    (hfound : findSlot t m key (keyHash t key) = none) (value : V) : ¬Stored t m key value := by
  rintro ⟨i,hi,h',k,hslot,hequal⟩
  rw [h.find hi hslot hequal] at hfound
  cases hfound

variable {first : Option Nat}

theorem insertFrom_some (hcap : p + left = m.capacity)
    (hfirst : ∀ f, first = some f → m.slots f = .tombstone ∧ m.Reaches hash f)
    (hway : ∀ q < p, m.slots (probeSlot m.capacity hash q) ≠ .empty)
    (h : insertFrom m hash left p first = some slot) :
    (m.slots slot).isOccupied = false ∧ m.Reaches hash slot := by
  induction left generalizing p first with
  | zero =>
    obtain ⟨hslot,hreach⟩ := hfirst slot h
    exact ⟨by rw [hslot]; rfl,hreach⟩
  | succ left ih =>
    have hhere : m.Reaches hash (probeSlot m.capacity hash p) := ⟨p,by omega,rfl,hway⟩
    have hnext (hne : m.slots (probeSlot m.capacity hash p) ≠ .empty) (q) (hq : q < p+1) :
        m.slots (probeSlot m.capacity hash q) ≠ .empty := by
      rcases Nat.lt_succ_iff_lt_or_eq.1 hq with hlt | rfl
      · exact hway q hlt
      · exact hne
    rw [insertFrom] at h
    split at h
    · rename_i hslot
      refine ih (by omega) (fun f hf => ?_) (hnext (by rw [hslot]; simp)) h
      cases hfirst' : first with
      | none =>
        rw [hfirst'] at hf
        cases hf
        exact ⟨hslot,hhere⟩
      | some g =>
        rw [hfirst'] at hf
        exact hfirst f (hfirst'.trans hf)
    · rename_i hslot
      cases h
      cases first with
      | none => exact ⟨by rw [Option.getD_none, hslot]; rfl,hhere⟩
      | some f =>
        obtain ⟨hf,hreach⟩ := hfirst f rfl
        exact ⟨by rw [Option.getD_some, hf]; rfl,hreach⟩
    · rename_i hslot
      exact ih (by omega) hfirst (hnext (by rw [hslot]; simp)) h

theorem insertFrom_isSome (hpq : p ≤ q)
    (hq : q < p + left) (hfree : (m.slots (probeSlot m.capacity hash q)).isOccupied = false) :
    (insertFrom m hash left p first).isSome = true := by
  have hkeeps (left p) (f) : (insertFrom m hash left p (some f)).isSome = true := by
    induction left generalizing p with
    | zero => rfl
    | succ left ih =>
      rw [insertFrom]
      split
      · exact ih _
      · rfl
      · exact ih _
  induction left generalizing p first with
  | zero => omega
  | succ left ih =>
    rw [insertFrom]
    split
    · cases first <;> exact hkeeps _ _ _
    · rfl
    rename_i hslot
    have hne : p ≠ q := by
      rintro rfl
      rw [hslot] at hfree
      cases hfree
    exact ih (by omega) (by omega)

end HashMap

end Salts.Cstl

/-! ### What each write does to the stored entries -/

namespace Salts.Cstl.HashMap

open TableSum

variable {K V : Type} {t : KeyTraits K} {m m' : HashMap K V}

theorem Reaches.mono (hcap : m'.capacity = m.capacity)
    (hslots : ∀ i, m.slots i ≠ .empty → m'.slots i ≠ .empty) {hash i : Nat}
    (h : m.Reaches hash i) : m'.Reaches hash i := by
  obtain ⟨p,hp,rfl,hway⟩ := h
  refine ⟨p,by rwa [hcap],by rw [hcap],fun q hq => ?_⟩
  rw [hcap]
  exact hslots _ (hway q hq)

variable {x : HashSlot K V}

theorem stored_update (hs : s < m.capacity) (hcap : m'.capacity = m.capacity)
    (hslots : m'.slots = Function.update m.slots s x) (q : K) (w : V) :
    Stored t m' q w ↔ (∃ h k, x = .occupied h k w ∧ t.equal k q = true) ∨
      ∃ i < m.capacity, i ≠ s ∧ ∃ h k, m.slots i = .occupied h k w ∧ t.equal k q = true := by
  unfold Stored
  rw [hcap, hslots]
  constructor
  · rintro ⟨i,hi,h,k,hslot,hequal⟩
    by_cases his : i = s
    · rw [his, Function.update_self] at hslot
      exact .inl ⟨h,k,hslot,hequal⟩
    · rw [Function.update_of_ne his] at hslot
      exact .inr ⟨i,hi,his,h,k,hslot,hequal⟩
  · rintro (⟨h,k,hx,hequal⟩ | ⟨i,hi,his,h,k,hslot,hequal⟩)
    · exact ⟨s,hs,h,k,by rw [Function.update_self, hx],hequal⟩
    · exact ⟨i,hi,h,k,by rw [Function.update_of_ne his, hslot],hequal⟩

variable {k k₀ : K}

theorem TableInv.occupy (h : TableInv t m) {v : V} (hs : s < m.capacity)
    (hfree : (m.slots s).isOccupied = false) (hreach : m.Reaches (keyHash t k) s)
    (hnew : ∀ w, ¬Stored t m k w) (hcap : m'.capacity = m.capacity)
    (hslots : m'.slots = Function.update m.slots s (.occupied (keyHash t k) k v))
    (hsize : m'.size = m.size + 1)
    (htomb : m'.tombstones + (m.slots s).isTombstone.toNat = m.tombstones) : TableInv t m' := by
  have hfull (i) (hi : m.slots i ≠ .empty) : m'.slots i ≠ .empty := by
    rw [hslots]
    by_cases his : i = s
    · rw [his]
      simp
    · rwa [Function.update_of_ne his]
  have hother {i : Nat} {h' : Nat} {k' : K} {v' : V} (hi)
      (hslot) (hequal : t.equal k' k = true) : False :=
    hnew v' ⟨i,hi,h',k',hslot,hequal⟩
  refine ⟨hcap ▸ h.shape,?_,?_,?_,?_⟩
  · rw [hsize, hcap, hslots]
    exact tally_update_succ h.size hs (by rw [hfree]; rfl)
  · have hupdate := tally_update (w := fun s => s.isTombstone.toNat) (f := m.slots)
      hs (.occupied (keyHash t k) k v)
    have hcount := h.tombstones
    rw [hcap, hslots]
    simp only [HashSlot.isTombstone_occupied, Bool.toNat_false] at hupdate
    omega
  · intro i h' k' v' hi hslot
    rw [hcap] at hi
    rw [hslots] at hslot
    by_cases his : i = s
    · rw [his, Function.update_self] at hslot
      cases hslot
      exact ⟨rfl,his ▸ hreach.mono hcap hfull⟩
    · rw [Function.update_of_ne his] at hslot
      obtain ⟨heq,hreach'⟩ := h.placed hi hslot
      exact ⟨heq,hreach'.mono hcap hfull⟩
  · intro i j h₁ h₂ k₁ k₂ v₁ v₂ hi hj hslot₁ hslot₂ hequal
    rw [hcap] at hi hj
    rw [hslots] at hslot₁ hslot₂
    by_cases his : i = s <;> by_cases hjs : j = s
    · rw [his, hjs]
    · rw [his, Function.update_self] at hslot₁
      rw [Function.update_of_ne hjs] at hslot₂
      cases hslot₁
      exact (hother hj hslot₂ (t.symm _ _ hequal)).elim
    · rw [hjs, Function.update_self] at hslot₂
      rw [Function.update_of_ne his] at hslot₁
      cases hslot₂
      exact (hother hi hslot₁ hequal).elim
    · rw [Function.update_of_ne his] at hslot₁
      rw [Function.update_of_ne hjs] at hslot₂
      exact h.distinct hi hj hslot₁ hslot₂ hequal

theorem stored_occupy {v : V} (hs : s < m.capacity)
    (hfree : (m.slots s).isOccupied = false) (hcap : m'.capacity = m.capacity)
    (hslots : m'.slots = Function.update m.slots s (.occupied (keyHash t k) k v)) (q : K) (w : V) :
    Stored t m' q w ↔ (t.equal k q = true ∧ w = v) ∨ Stored t m q w := by
  rw [stored_update hs hcap hslots]
  refine or_congr ⟨?_,?_⟩ ⟨?_,?_⟩
  · rintro ⟨h',k',hx,hequal⟩
    cases hx
    exact ⟨hequal,rfl⟩
  · rintro ⟨hequal,rfl⟩
    exact ⟨_,k,rfl,hequal⟩
  · rintro ⟨i,hi,-,hrest⟩
    exact ⟨i,hi,hrest⟩
  · rintro ⟨i,hi,h',k',hslot',hequal⟩
    refine ⟨i,hi,?_,h',k',hslot',hequal⟩
    rintro rfl
    rw [hslot'] at hfree
    cases hfree

theorem TableInv.rewrite (h : TableInv t m) {v₀ : V} (hs : s < m.capacity)
    (hslot₀ : m.slots s = .occupied h₀ k₀ v₀) (hx : (∃ v, x = .occupied h₀ k₀ v) ∨ x = .tombstone)
    (hcap : m'.capacity = m.capacity) (hslots : m'.slots = Function.update m.slots s x)
    (hsize : m'.size + 1 = m.size + x.isOccupied.toNat)
    (htomb : m'.tombstones = m.tombstones + x.isTombstone.toNat) : TableInv t m' := by
  have hfull (i) (hi : m.slots i ≠ .empty) : m'.slots i ≠ .empty := by
    rw [hslots]
    by_cases his : i = s
    · rw [his]
      rcases hx with ⟨v,rfl⟩ | rfl <;> simp
    · rwa [Function.update_of_ne his]
  -- what an occupied slot holds now, it held before, up to the value
  have hback {i h' : Nat} {k' : K} {v' : V} (hslot : m'.slots i = .occupied h' k' v') :
      ∃ w, m.slots i = .occupied h' k' w := by
    rw [hslots] at hslot
    by_cases his : i = s
    · rw [his, Function.update_self] at hslot
      rcases hx with ⟨v,rfl⟩ | rfl
      · cases hslot
        exact ⟨v₀,his ▸ hslot₀⟩
      · cases hslot
    · rw [Function.update_of_ne his] at hslot
      exact ⟨v',hslot⟩
  refine ⟨hcap ▸ h.shape,?_,?_,?_,?_⟩
  · have hupdate := tally_update (w := fun s => s.isOccupied.toNat) (f := m.slots)
      hs x
    have hcount := h.size
    rw [hcap, hslots]
    simp only [hslot₀, HashSlot.isOccupied_occupied, Bool.toNat_true] at hupdate
    omega
  · have hupdate := tally_update (w := fun s => s.isTombstone.toNat) (f := m.slots)
      hs x
    have hcount := h.tombstones
    rw [hcap, hslots]
    simp only [hslot₀, HashSlot.isTombstone_occupied, Bool.toNat_false] at hupdate
    omega
  · intro i h' k' v' hi hslot
    rw [hcap] at hi
    obtain ⟨w,hslot'⟩ := hback hslot
    obtain ⟨heq,hreach⟩ := h.placed hi hslot'
    exact ⟨heq,hreach.mono hcap hfull⟩
  · intro i j h₁ h₂ k₁ k₂ v₁ v₂ hi hj hslot₁ hslot₂ hequal
    rw [hcap] at hi hj
    obtain ⟨w₁,hslot₁'⟩ := hback hslot₁
    obtain ⟨w₂,hslot₂'⟩ := hback hslot₂
    exact h.distinct hi hj hslot₁' hslot₂' hequal

theorem TableInv.stored_rewrite (h : TableInv t m) {v₀ : V} (hs : s < m.capacity)
    (hslot₀ : m.slots s = .occupied h₀ k₀ v₀) (hcap : m'.capacity = m.capacity)
    (hslots : m'.slots = Function.update m.slots s x) (q : K) (w : V) :
    Stored t m' q w ↔ (∃ h' k, x = .occupied h' k w ∧ t.equal k q = true) ∨
      (t.equal k₀ q = false ∧ Stored t m q w) := by
  rw [stored_update hs hcap hslots]
  refine or_congr_right ⟨?_,?_⟩
  · rintro ⟨i,hi,his,h',k,hslot,hequal⟩
    refine ⟨Bool.eq_false_iff.2 fun hk₀ => his ?_,i,hi,h',k,hslot,hequal⟩
    exact h.distinct hi hs hslot hslot₀ (t.trans _ _ _ hequal (t.symm _ _ hk₀))
  · rintro ⟨hk₀,i,hi,h',k,hslot,hequal⟩
    refine ⟨i,hi,?_,h',k,hslot,hequal⟩
    rintro rfl
    rw [hslot₀] at hslot
    cases hslot
    rw [hequal] at hk₀
    cases hk₀

theorem tableInv_emptied (m : HashMap K V) {capacity : Nat} (hshape : Shape capacity) :
    TableInv t (m.emptied capacity) := by
  refine ⟨hshape,?_,?_,fun _ hslot => ?_,fun _ _ hslot => ?_⟩
  · simp [emptied, tally, HashSlot.isOccupied]
  · simp [emptied, tally, HashSlot.isTombstone]
  · cases hslot
  · cases hslot

theorem not_stored_emptied (m : HashMap K V) (capacity : Nat) (q : K) (w : V) :
    ¬Stored t (m.emptied capacity) q w := by
  rintro ⟨i,-,h,k,hslot,-⟩
  cases hslot

theorem TableInv.insertSlot (h : TableInv t m) (hroom : m.size < m.capacity) (hash : Nat) :
    ∃ s, m.insertSlot hash = some s ∧ s < m.capacity ∧ (m.slots s).isOccupied = false ∧
      m.Reaches hash s := by
  obtain h0 | ⟨j,-,hj,hcap⟩ := h.shape
  · omega
  obtain ⟨i,hi,hfree⟩ : ∃ i < m.capacity, (m.slots i).isOccupied = false := by
    by_contra hnone
    have hall : ∀ i < m.capacity, (m.slots i).isOccupied.toNat = 1 := fun i hi => by
      cases hocc : (m.slots i).isOccupied with
      | false => exact absurd ⟨i,hi,hocc⟩ hnone
      | true => rfl
    have hfull : tally (fun s => s.isOccupied.toNat) m.capacity m.slots = m.capacity := by
      rw [tally, Finset.sum_congr rfl fun i hi => hall i (Finset.mem_range.1 hi)]
      simp
    have hsize := h.size
    omega
  obtain ⟨p,hp,rfl⟩ := exists_probe hj hash (hcap ▸ hi)
  rw [← hcap] at hp hfree
  have hsome : (m.insertSlot hash).isSome = true :=
    insertFrom_isSome (Nat.zero_le p) (by omega) hfree
  obtain ⟨s,hs⟩ := Option.isSome_iff_exists.1 hsome
  obtain ⟨hsfree,hreach⟩ := insertFrom_some (Nat.zero_add _) (fun f hf => by cases hf)
    (fun q hq => by omega) hs
  have hlt : s < m.capacity := by
    obtain ⟨q,-,rfl,-⟩ := hreach
    exact h.probeSlot_lt (by omega) _ _
  exact ⟨s,hs,hlt,hsfree,hreach⟩

end Salts.Cstl.HashMap
