import Salts.CstlHashMap

/-!
Whole calls and whole runs of the hash map: a rehash keeps the entries, the growth check leaves
room, and a run computes what a finite map computes.
-/

namespace Salts.Cstl.HashMap

open TableSum

variable {K V : Type} {t : KeyTraits K} {m m' : HashMap K V}

structure Same (t : KeyTraits K) (m m' : HashMap K V) : Prop where
  size : m'.size = m.size
  limit : m'.entryLimit = m.entryLimit
  stored : ∀ q w, Stored t m' q w ↔ Stored t m q w

variable {k q key : K}

theorem TableInv.place (h : TableInv t m) (hroom : m.size < m.capacity) (v : V)
    (hnew : ∀ w, ¬Stored t m k w) :
    ∃ m', m.place (keyHash t k) k v = some m' ∧ TableInv t m' ∧ m'.entryLimit = m.entryLimit ∧
      ∀ q w, Stored t m' q w ↔ (t.equal k q = true ∧ w = v) ∨ Stored t m q w := by
  obtain ⟨s,hslot,hs,hfree,hreach⟩ := h.insertSlot hroom (keyHash t k)
  have hcount := h.tombstones
  have hone := weight_le_tally (w := fun s => s.isTombstone.toNat) (f := m.slots) hs
  obtain ⟨tombstones,heq,htomb⟩ : ∃ tombstones, m.place (keyHash t k) k v = some
      { m.setSlot s (.occupied (keyHash t k) k v) with
        size := m.size+1, tombstones := tombstones, generation := wrap (m.generation+1) } ∧
      tombstones+(m.slots s).isTombstone.toNat = m.tombstones := by
    rw [HashMap.place, hslot]
    refine ⟨_,rfl,?_⟩
    cases hslots : m.slots s with
    | tombstone =>
      simp only [hslots, HashSlot.isTombstone, Bool.toNat_true] at hone ⊢
      simp only [HashSlot.isTombstone] at hcount
      omega
    | empty => rfl
    | occupied => rfl
  exact ⟨_,heq,h.occupy hs hfree hreach hnew rfl rfl rfl htomb,rfl,stored_occupy hs hfree rfl rfl⟩

theorem TableInv.rehashInsert (h : TableInv t m) (hroom : m.size < m.capacity)
    (htomb : m.tombstones = 0) (v : V) (hnew : ∀ w, ¬Stored t m k w) :
    ∃ m', m.rehashInsert (keyHash t k) k v = some m' ∧ TableInv t m' ∧ m'.tombstones = 0 ∧
      m'.capacity = m.capacity ∧ m'.entryLimit = m.entryLimit ∧ m'.size = m.size + 1 ∧
      ∀ q w, Stored t m' q w ↔ (t.equal k q = true ∧ w = v) ∨ Stored t m q w := by
  obtain ⟨s,hslot,hs,hfree,hreach⟩ := h.insertSlot hroom (keyHash t k)
  have hone := weight_le_tally (w := fun s => s.isTombstone.toNat) (f := m.slots) hs
  have heq : m.rehashInsert (keyHash t k) k v = some
      { m.setSlot s (.occupied (keyHash t k) k v) with size := m.size + 1 } := by
    rw [HashMap.rehashInsert, hslot]
    rfl
  rw [← h.tombstones] at hone
  refine ⟨_,heq,h.occupy hs hfree hreach hnew rfl rfl rfl ?_,htomb,rfl,rfl,rfl,
    stored_occupy hs hfree rfl rfl⟩
  show m.tombstones+_ = _
  omega

theorem rehashFrom_spec {old next : HashMap K V} (hold : TableInv t old) {left slot : Nat}
    (hcap : slot + left = old.capacity) (h : TableInv t next) (htomb : next.tombstones = 0)
    (hroom : old.size ≤ next.capacity)
    (hsize : next.size = tally (fun s : HashSlot K V => s.isOccupied.toNat) slot old.slots)
    (hstored : ∀ q w, Stored t next q w ↔
      ∃ i < slot, ∃ h k, old.slots i = .occupied h k w ∧ t.equal k q = true) :
    ∃ r, rehashFrom old left slot next = some r ∧ TableInv t r ∧ r.capacity = next.capacity ∧
      r.entryLimit = next.entryLimit ∧ r.size = old.size ∧
      ∀ q w, Stored t r q w ↔ Stored t old q w := by
  induction left generalizing slot next with
  | zero =>
    obtain rfl : slot = old.capacity := hcap
    exact ⟨next,rfl,h,rfl,rfl,hsize.trans hold.size.symm,hstored⟩
  | succ left ih =>
    have hnext := tally_succ (w := fun s => s.isOccupied.toNat) (n := slot)
      (f := old.slots)
    have hskip (hs : (old.slots slot).isOccupied = false) :
        ∃ r, rehashFrom old left (slot+1) next = some r ∧ TableInv t r ∧
          r.capacity = next.capacity ∧ r.entryLimit = next.entryLimit ∧ r.size = old.size ∧
          ∀ q w, Stored t r q w ↔ Stored t old q w := by
      refine ih (by omega) h htomb hroom (by simp only [hs, Bool.toNat_false] at hnext; omega)
        fun q w => (hstored q w).trans ⟨?_,?_⟩
      · rintro ⟨i,hi,hrest⟩
        exact ⟨i,by omega,hrest⟩
      · rintro ⟨i,hi,h',k,hslot,hequal⟩
        refine ⟨i,Nat.lt_of_le_of_ne (by omega) fun heq => ?_,h',k,hslot,hequal⟩
        rw [heq] at hslot
        rw [hslot] at hs
        cases hs
    rw [rehashFrom]
    split
    · rename_i hash k v hslot
      obtain ⟨rfl,-⟩ := hold.placed (by omega) hslot
      simp only [hslot, HashSlot.isOccupied_occupied, Bool.toNat_true] at hnext
      have hle := tally_mono (w := fun s => s.isOccupied.toNat) (f := old.slots)
        (show slot+1 ≤ old.capacity by omega)
      have hfull := hold.size
      -- the key is not among those of the slots before, which are other slots
      have hnew (w) : ¬Stored t next k w := fun hw => by
        obtain ⟨i,hi,h',k',hslot',hequal⟩ := (hstored k w).1 hw
        have := hold.distinct (by omega) (by omega) hslot' hslot hequal
        omega
      obtain ⟨next',heq,hinv,htomb',hcap',hlimit',hsize',hstored'⟩ :=
        h.rehashInsert (by omega) htomb v hnew
      obtain ⟨r,hr,hrinv,hrcap,hrlimit,hrsize,hrstored⟩ := ih
        (show slot+1+left = old.capacity by omega) hinv htomb' (by omega) (by omega)
        fun q w => by
          rw [hstored', hstored]
          constructor
          · rintro (⟨hequal,rfl⟩ | ⟨i,hi,hrest⟩)
            · exact ⟨slot,by omega,_,k,hslot,hequal⟩
            · exact ⟨i,by omega,hrest⟩
          · rintro ⟨i,hi,h',k',hslot',hequal⟩
            rcases Nat.lt_succ_iff_lt_or_eq.1 hi with hlt | rfl
            · exact .inr ⟨i,hlt,h',k',hslot',hequal⟩
            · rw [hslot] at hslot'
              cases hslot'
              exact .inl ⟨hequal,rfl⟩
      refine ⟨r,?_,hrinv,hrcap.trans hcap',hrlimit.trans hlimit',hrsize,hrstored⟩
      rw [heq]
      exact hr
    · rename_i hslot
      refine hskip ?_
      cases hs : old.slots slot with
      | occupied hash k v => exact absurd hs (hslot hash k v)
      | empty => rfl
      | tombstone => rfl

theorem shape_max {a b : Nat} (ha : Shape a) (hb : Shape b) : Shape (max a b) := by
  rcases Nat.le_total a b with hle | hle
  · rw [Nat.max_eq_right hle]
    exact hb
  · rw [Nat.max_eq_left hle]
    exact ha

theorem TableInv.size_le (h : TableInv t m) : m.size ≤ m.capacity := by
  rw [h.size]
  calc tally (fun s => s.isOccupied.toNat) m.capacity m.slots
      ≤ ∑ _i ∈ Finset.range m.capacity, 1 := Finset.sum_le_sum fun i _ => Bool.toNat_le _
    _ = m.capacity := by simp

def Least (entries capacity : Nat) : Prop :=
  ∃ j, 4 ≤ j ∧ j ≤ 63 ∧ capacity = 2 ^ j ∧ 10 * entries ≤ 7 * capacity ∧
    (j = 4 ∨ 7 * 2 ^ (j - 1) < 10 * entries)

theorem growBuckets_spec {requested j : Nat} (fuel : Nat) (hj : 4 ≤ j) (hj' : j ≤ 63)
    (hfuel : 63 < j + fuel) (hlow : j = 4 ∨ 2 ^ (j - 1) < requested) :
    (∃ i, 4 ≤ i ∧ i ≤ 63 ∧ growBuckets requested fuel (2 ^ j) = .ok (2 ^ i) ∧
        requested ≤ 2 ^ i ∧ (i = 4 ∨ 2 ^ (i - 1) < requested)) ∨
      growBuckets requested fuel (2 ^ j) = .error .capacityExceeded ∧ 2 ^ 63 < requested := by
  induction fuel generalizing j with
  | zero => omega
  | succ fuel ih =>
    rw [growBuckets]
    by_cases hsmall : 2 ^ j < requested
    swap
    · exact .inl ⟨j,hj,hj',if_neg hsmall,by omega,hlow⟩
    rw [if_pos hsmall]
    -- a capacity that may still double is below `2 ^ 63`
    by_cases hmax : j = 63
    · subst hmax
      exact .inr ⟨rfl,hsmall⟩
    · have hlt : 2 ^ j < 2 ^ 63 := Nat.pow_lt_pow_right (by decide) (by omega)
      rw [if_neg (by unfold sizeMax; omega), ← Nat.pow_succ]
      exact ih (by omega) (by omega) (by omega) (.inr hsmall)

variable {entries buckets : Nat}

/-- The rounded sum of `hash_buckets_for_entries` asks for `10 / 7` of the entries. -/
theorem bucketsForEntries_spec (hpos : 0 < entries) :
    (∃ buckets, bucketsForEntries entries = .ok buckets ∧ Least entries buckets) ∨
      bucketsForEntries entries = .error .capacityExceeded ∧ 7 * 2 ^ 63 < 10 * entries := by
  unfold bucketsForEntries
  rw [if_neg (by omega)]
  split
  · exact .inr ⟨rfl,by unfold sizeMax at *; omega⟩
  dsimp only
  split
  · exact .inr ⟨rfl,by unfold sizeMax at *; omega⟩
  have hmin : hashMinBuckets = 2 ^ 4 := rfl
  rw [hmin]
  rcases growBuckets_spec 64 le_rfl (by decide) (by decide) (.inl rfl) with
    ⟨i,hi,hi',heq,hle,hlow⟩ | ⟨heq,hlt⟩
  · have hpow : i = 4 ∨ 2 ^ 4 ≤ 2 ^ (i-1) := (Nat.eq_or_lt_of_le hi).imp Eq.symm fun hlt =>
        Nat.pow_le_pow_right (by decide) (Nat.le_sub_one_of_lt hlt)
    exact .inl ⟨_,heq,i,hi,hi',rfl,by omega,by omega⟩
  · exact .inr ⟨heq,by omega⟩

theorem bucketsForEntries_shape (h : bucketsForEntries entries = .ok buckets) : Shape buckets := by
  rcases Nat.eq_zero_or_pos entries with rfl | hpos
  · exact .inl (Except.ok.inj h).symm
  · rcases bucketsForEntries_spec hpos with ⟨_,heq,j,hj,hj',hcap,-⟩ | ⟨heq,-⟩
    · rw [h] at heq
      exact .inr ⟨j,hj,hj',(Except.ok.inj heq).trans hcap⟩
    · rw [h] at heq
      cases heq

theorem TableInv.rehash (h : TableInv t m) (env : HashEnv) {capacity : Nat}
    (hshape : Shape capacity) (hroom : m.size ≤ capacity) :
    (env.allocate capacity ≠ .ok ∧
      HashMap.rehash env m capacity = some (env.allocate capacity, m)) ∨
    ∃ m', HashMap.rehash env m capacity = some (.ok, m') ∧ TableInv t m' ∧ Same t m m' ∧
      m'.capacity = capacity := by
  unfold HashMap.rehash
  by_cases halloc : env.allocate capacity = .ok
  · right
    obtain ⟨r,hr,hinv,hcap,hlimit,hsize,hstored⟩ := rehashFrom_spec h (Nat.zero_add _)
      (tableInv_emptied m hshape) rfl hroom rfl fun q w =>
        ⟨fun hw => absurd hw (not_stored_emptied m capacity q w),fun ⟨i,hi,_⟩ => by omega⟩
    refine ⟨r,?_,hinv,⟨hsize,hlimit,hstored⟩,hcap⟩
    rw [if_neg (not_not.2 halloc), hr]
    rfl
  · exact .inl ⟨halloc,if_pos halloc⟩

/-- The growth check needs a table of this capacity: a larger one, or the same one without its
tombstones. -/
def Asks (m : HashMap K V) (capacity : Nat) : Prop :=
  ∃ least, Least (m.size + 1) least ∧ capacity = max least m.capacity ∧
    (m.capacity < least ∨ m.size < m.tombstones)

/-- One more entry than fits: `2 ^ 63` slots are too few for it, or the table that it needs is not
allocated. -/
def Unfit (env : HashEnv) (m : HashMap K V) : Prop :=
  7 * 2 ^ 63 < 10 * (m.size + 1) ∨ ∃ capacity, m.Asks capacity ∧ env.allocate capacity ≠ .ok

/-- The growth check leaves the map as it is, or the same entries in a table with room. -/
theorem TableInv.ensureInsert (h : TableInv t m) (env : HashEnv) :
    ∃ status m', HashMap.ensureInsert env m = some (status, m') ∧
      (status = .ok → TableInv t m' ∧ Same t m m' ∧ m'.size < m'.capacity) ∧
      (status ≠ .ok → m' = m ∧ m.Unfit env) := by
  unfold HashMap.ensureInsert
  by_cases hmax : m.size = sizeMax
  · exact ⟨_,m,if_pos hmax,fun hok => (nomatch hok),fun _ =>
      ⟨rfl,.inl (by unfold sizeMax at hmax; omega)⟩⟩
  rw [if_neg hmax]
  rcases bucketsForEntries_spec m.size.succ_pos with ⟨buckets,heq,hleast⟩ | ⟨heq,hlt⟩
  swap
  · exact ⟨.capacityExceeded,m,by rw [heq],fun hok => (nomatch hok),fun _ => ⟨rfl,.inl hlt⟩⟩
  obtain ⟨-,-,-,-,hload,-⟩ := id hleast
  rw [heq]
  dsimp only
  by_cases hgrow : m.mustGrow buckets
  · rw [if_pos hgrow]
    rcases h.rehash env (shape_max (bucketsForEntries_shape heq) h.shape) (by omega) with
      ⟨hfails,heq⟩ | ⟨m',heq,hinv,hsame,hcap⟩
    · exact ⟨_,m,heq,fun hok => absurd hok hfails,fun _ =>
        ⟨rfl,.inr ⟨_,⟨buckets,hleast,rfl,hgrow.imp id And.left⟩,hfails⟩⟩⟩
    · have := hsame.size
      exact ⟨_,m',heq,fun _ => ⟨hinv,hsame,by omega⟩,fun hne => absurd rfl hne⟩
  · have hfits : buckets ≤ m.capacity := Nat.le_of_not_lt fun hlt => hgrow (.inl hlt)
    rw [if_neg hgrow]
    exact ⟨_,m,rfl,fun _ => ⟨h,⟨rfl,rfl,fun _ _ => Iff.rfl⟩,by omega⟩,fun hne => absurd rfl hne⟩

theorem TableInv.get_congr (h : TableInv t m) (h' : TableInv t m')
    (hstored : ∀ w, Stored t m' q w ↔ Stored t m q w) : m'.get t q = m.get t q := by
  ext w
  rw [h'.get_eq_some, h.get_eq_some, hstored]

theorem Stored.of_equal {w : V} (h : Stored t m q w) (hequal : t.equal k q = true) :
    Stored t m k w := by
  obtain ⟨i,hi,h',k',hslot,hequal'⟩ := h
  exact ⟨i,hi,h',k',hslot,t.trans _ _ _ hequal' (t.symm _ _ hequal)⟩

section

variable (h : TableInv t m)

include h

theorem TableInv.replace {s : Nat} {h₀ : Nat} {k₀ key : K} {v₀ value : V}
    (hs : s < m.capacity) (hslot₀ : m.slots s = .occupied h₀ k₀ v₀)
    (hequal : t.equal k₀ key = true) (hcap : m'.capacity = m.capacity)
    (hslots : m'.slots = Function.update m.slots s (.occupied h₀ k₀ value))
    (hsize : m'.size = m.size) (htomb : m'.tombstones = m.tombstones) :
    TableInv t m' ∧ ∀ q, m'.get t q = if t.equal key q then some value else m.get t q := by
  have hinv : TableInv t m' :=
    h.rewrite hs hslot₀ (.inl ⟨value,rfl⟩) hcap hslots (by rw [hsize]; rfl) htomb
  refine ⟨hinv,fun q => ?_⟩
  by_cases hq : t.equal key q = true
  · rw [if_pos hq, hinv.get_eq_some, h.stored_rewrite hs hslot₀ hcap hslots]
    exact .inl ⟨h₀,k₀,rfl,t.trans _ _ _ hequal hq⟩
  · have hnot : t.equal k₀ q = false := Bool.eq_false_iff.2 fun hk =>
      hq (t.trans _ _ _ (t.symm _ _ hequal) hk)
    rw [if_neg hq]
    refine h.get_congr hinv fun w => ?_
    rw [h.stored_rewrite hs hslot₀ hcap hslots]
    constructor
    · rintro (⟨h',k',hx,hk⟩ | ⟨-,hw⟩)
      · cases hx
        rw [hnot] at hk
        cases hk
      · exact hw
    · exact fun hw => .inr ⟨hnot,hw⟩

theorem TableInv.put (env : HashEnv) (key : K) (value : V) :
    ∃ status m', HashMap.put t env m key value = some (status, m') ∧ m'.entryLimit = m.entryLimit ∧
      (status = .ok → TableInv t m' ∧
        ∀ q, m'.get t q = if t.equal key q then some value else m.get t q) ∧
      (status ≠ .ok → m' = m ∧ (env.prepareKey ≠ .ok ∨ env.prepareValue ≠ .ok ∨
        m.entryLimit ≤ m.size ∨ m.Unfit env)) := by
  unfold HashMap.put
  dsimp only
  cases hfind : findSlot t m key (keyHash t key) with
  | some slot =>
    obtain ⟨hs,k,v,hslot,hequal⟩ := h.find_some hfind
    dsimp only
    by_cases hprepare : env.prepareValue = .ok
    · rw [if_neg (not_not.2 hprepare), hslot]
      exact ⟨_,_,rfl,rfl,fun _ => h.replace hs hslot hequal rfl rfl rfl rfl,
        fun hne => absurd rfl hne⟩
    · rw [if_pos hprepare]
      exact ⟨_,m,rfl,rfl,fun hok => absurd hok hprepare,fun _ => ⟨rfl,.inr (.inl hprepare)⟩⟩
  | none =>
    have hnew := h.not_stored hfind
    by_cases hlimit : m.size ≥ m.entryLimit
    · rw [if_pos hlimit]
      exact ⟨_,m,rfl,rfl,fun hok => (nomatch hok),fun _ => ⟨rfl,.inr (.inr (.inl hlimit))⟩⟩
    rw [if_neg hlimit]
    by_cases hkey : env.prepareKey = .ok
    swap
    · rw [if_pos hkey]
      exact ⟨_,m,rfl,rfl,fun hok => absurd hok hkey,fun _ => ⟨rfl,.inl hkey⟩⟩
    rw [if_neg (not_not.2 hkey)]
    by_cases hvalue : env.prepareValue = .ok
    swap
    · rw [if_pos hvalue]
      exact ⟨_,m,rfl,rfl,fun hok => absurd hok hvalue,fun _ => ⟨rfl,.inr (.inl hvalue)⟩⟩
    rw [if_neg (not_not.2 hvalue)]
    obtain ⟨status,m₁,hensure,hok,hfails⟩ := h.ensureInsert env
    rw [hensure]
    by_cases hstatus : status = .ok
    · obtain ⟨hinv₁,hsame,hroom⟩ := hok hstatus
      have hnew₁ (w) : ¬Stored t m₁ key w := fun hw => hnew w ((hsame.stored key w).1 hw)
      obtain ⟨m₂,hplace,hinv₂,hlimit₂,hstored⟩ := hinv₁.place hroom value hnew₁
      refine ⟨.ok,m₂,?_,hlimit₂.trans hsame.limit,fun _ => ⟨hinv₂,fun q => ?_⟩,
        fun hne => absurd rfl hne⟩
      · simp only [Option.bind_eq_bind, Option.bind_some, hstatus, hplace]
        rfl
      · by_cases hq : t.equal key q = true
        · rw [if_pos hq, hinv₂.get_eq_some, hstored]
          exact .inl ⟨hq,rfl⟩
        · rw [if_neg hq]
          refine h.get_congr hinv₂ fun w => ?_
          rw [hstored, hsame.stored]
          exact ⟨fun hw => hw.resolve_left fun ⟨hq',_⟩ => hq hq',.inr⟩
    · obtain ⟨rfl,hreason⟩ := hfails hstatus
      refine ⟨status,m₁,?_,rfl,fun hok => absurd hok hstatus,fun _ => ⟨rfl,?_⟩⟩
      · simp only [Option.bind_eq_bind, Option.bind_some, ne_eq, hstatus]
        rfl
      · exact .inr (.inr (.inr hreason))

theorem TableInv.get_eq_none : m.get t key = none ↔ ∀ w, ¬Stored t m key w := by
  rw [Option.eq_none_iff_forall_ne_some]
  exact forall_congr' fun w => not_congr h.get_eq_some

theorem TableInv.remove (key : K) :
    (m.remove t key).2.1 = m.get t key ∧
      (m.remove t key).1 = (if (m.get t key).isSome then .ok else .notFound) ∧
      TableInv t (m.remove t key).2.2 ∧ (m.remove t key).2.2.entryLimit = m.entryLimit ∧
      ∀ q, (m.remove t key).2.2.get t q = if t.equal key q then none else m.get t q := by
  unfold HashMap.remove
  cases hfind : findSlot t m key (keyHash t key) with
  | none =>
    have hget : m.get t key = none := by rw [HashMap.get, hfind]; rfl
    refine ⟨hget.symm,by simp [hget],h,rfl,fun q => ?_⟩
    by_cases hq : t.equal key q = true
    · rw [if_pos hq, h.get_eq_none]
      exact fun w hw => h.get_eq_none.1 hget w (hw.of_equal hq)
    · rw [if_neg hq]
  | some slot =>
    obtain ⟨hs,k,v,hslot,hequal⟩ := h.find_some hfind
    have hvalue : m.valueAt slot = some v := by rw [valueAt, hslot]
    have hget : m.get t key = some v := by rw [HashMap.get, hfind]; exact hvalue
    have hpos := weight_le_tally (w := fun s => s.isOccupied.toNat) (f := m.slots) hs
    rw [← h.size, hslot] at hpos
    have hinv : TableInv t (m.bury slot) :=
      h.rewrite hs hslot (.inr rfl) rfl rfl (show m.size-1+1 = m.size+0 from
        Nat.sub_add_cancel hpos) rfl
    refine ⟨hvalue.trans hget.symm,by simp [hget],hinv,rfl,fun q => ?_⟩
    have hstored := h.stored_rewrite hs hslot (show (m.bury slot).capacity = m.capacity from rfl)
      (show (m.bury slot).slots = Function.update m.slots slot .tombstone from rfl) q
    by_cases hq : t.equal key q = true
    · rw [if_pos hq, hinv.get_eq_none]
      intro w hw
      rcases (hstored w).1 hw with ⟨_,_,hx,-⟩ | ⟨hnot,-⟩
      · cases hx
      · rw [t.trans _ _ _ hequal hq] at hnot
        cases hnot
    · have hnot : t.equal k q = false := Bool.eq_false_iff.2 fun hk =>
        hq (t.trans _ _ _ (t.symm _ _ hequal) hk)
      rw [if_neg hq]
      refine h.get_congr hinv fun w => (hstored w).trans ⟨?_,fun hw => .inr ⟨hnot,hw⟩⟩
      rintro (⟨_,_,hx,-⟩ | ⟨-,hw⟩)
      · cases hx
      · exact hw

theorem TableInv.withGeneration (generation : Nat) :
    TableInv t { m with generation := generation } :=
  ⟨h.shape,h.size,h.tombstones,h.placed,h.distinct⟩

theorem TableInv.clear :
    TableInv t m.clear ∧ m.clear.entryLimit = m.entryLimit ∧ ∀ q, m.clear.get t q = none := by
  unfold HashMap.clear
  by_cases hsize : m.size = 0
  · rw [if_neg (not_not.2 hsize)]
    refine ⟨h,rfl,fun q => h.get_eq_none.2 fun w hw => ?_⟩
    obtain ⟨i,hi,h',k,hslot,-⟩ := hw
    have hpos := weight_le_tally (w := fun s => s.isOccupied.toNat) (f := m.slots) hi
    rw [← h.size, hsize, hslot] at hpos
    cases hpos
  · rw [if_pos hsize]
    have hinv := (tableInv_emptied (t := t) m h.shape).withGeneration (wrap (m.generation+1))
    exact ⟨hinv,rfl,fun q => hinv.get_eq_none.2 fun w => not_stored_emptied m m.capacity q w⟩

theorem TableInv.reserve (env : HashEnv) (minEntries : Nat) :
    ∃ status m', HashMap.reserve env m minEntries = some (status, m') ∧ TableInv t m' ∧
      m'.entryLimit = m.entryLimit ∧ ∀ q, m'.get t q = m.get t q := by
  have hkeeps (status : StlStatus) : ∃ status' m', some (status,m) = some (status',m') ∧
      TableInv t m' ∧ m'.entryLimit = m.entryLimit ∧ ∀ q, m'.get t q = m.get t q :=
    ⟨status,m,rfl,h,rfl,fun _ => rfl⟩
  unfold HashMap.reserve
  split
  · exact hkeeps _
  split
  · exact hkeeps _
  rename_i buckets hbuckets
  split
  · have hle := h.size_le
    rcases h.rehash env (shape_max (bucketsForEntries_shape hbuckets) h.shape)
      (hle.trans (Nat.le_max_right _ _)) with ⟨hfails,heq⟩ | ⟨m',heq,hinv,hsame,-⟩
    · exact ⟨env.allocate (max buckets m.capacity),m,by simp [heq, hfails],h,rfl,fun _ => rfl⟩
    · have hinv' := hinv.withGeneration (wrap (m'.generation+1))
      exact ⟨.ok,_,by rw [heq]; rfl,hinv',hsame.limit,fun q =>
        h.get_congr hinv' fun w => hsame.stored q w⟩
  · exact hkeeps _

end

inductive HashOp (K V : Type)
  | put (env : HashEnv) (key : K) (value : V)
  | remove (key : K)
  | clear
  | reserve (env : HashEnv) (minEntries : Nat)
  | lookup (key : K)

inductive HashReply (V : Type)
  | status (s : StlStatus)
  | removed (s : StlStatus) (value : Option V)
  | found (value : Option V)
  | done
  deriving DecidableEq

def step (t : KeyTraits K) (m : HashMap K V) : HashOp K V → Option (HashReply V × HashMap K V)
  | .put env key value => (put t env m key value).map fun (s, m) => (.status s, m)
  | .remove key => some (.removed (m.remove t key).1 (m.remove t key).2.1, (m.remove t key).2.2)
  | .clear => some (.done, m.clear)
  | .reserve env minEntries => (reserve env m minEntries).map fun (s, m) => (.status s, m)
  | .lookup key => some (.found (m.get t key), m)

def run (t : KeyTraits K) (m : HashMap K V) :
    List (HashOp K V) → Option (List (HashReply V) × HashMap K V)
  | [] => some ([], m)
  | op :: ops => do
      let (reply, m) ← step t m op
      let (replies, m) ← run t m ops
      return (reply :: replies, m)

/-- What a call does to a map from keys to values: a `put` inserts or replaces, or fails and does
nothing; a `remove` takes exactly the given key. -/
def MapStep (t : KeyTraits K) (a : K → Option V) :
    HashOp K V → HashReply V → (K → Option V) → Prop
  | .put _ key value, .status s, a' =>
    (s = .ok ∧ a' = fun q => if t.equal key q then some value else a q) ∨ (s ≠ .ok ∧ a' = a)
  | .remove key, .removed s value, a' =>
    s = (if (a key).isSome then .ok else .notFound) ∧ value = a key ∧
      a' = fun q => if t.equal key q then none else a q
  | .clear, .done, a' => a' = fun _ => none
  | .reserve _ _, .status _, a' => a' = a
  | .lookup key, .found value, a' => value = a key ∧ a' = a
  | _, _, _ => False

inductive MapRun (t : KeyTraits K) :
    (K → Option V) → List (HashOp K V) → List (HashReply V) → (K → Option V) → Prop
  | nil {a} : MapRun t a [] [] a
  | cons {a b c op ops reply replies} : MapStep t a op reply b → MapRun t b ops replies c →
      MapRun t a (op :: ops) (reply :: replies) c

theorem TableInv.step (h : TableInv t m) (op : HashOp K V) :
    ∃ reply m', HashMap.step t m op = some (reply, m') ∧ TableInv t m' ∧
      m'.entryLimit = m.entryLimit ∧ MapStep t (m.get t) op reply (m'.get t) := by
  cases op with
  | put env key value =>
    obtain ⟨s,m',heq,hlimit,hok,hfails⟩ := h.put env key value
    refine ⟨.status s,m',by rw [HashMap.step, heq]; rfl,?_⟩
    by_cases hs : s = .ok
    · exact ⟨(hok hs).1,hlimit,.inl ⟨hs,funext (hok hs).2⟩⟩
    · obtain ⟨rfl,-⟩ := hfails hs
      exact ⟨h,rfl,.inr ⟨hs,rfl⟩⟩
  | remove key =>
    obtain ⟨hvalue,hstatus,hinv,hlimit,hget⟩ := h.remove key
    exact ⟨_,_,rfl,hinv,hlimit,hstatus,hvalue,funext hget⟩
  | clear => exact ⟨_,_,rfl,h.clear.1,h.clear.2.1,funext h.clear.2.2⟩
  | reserve env minEntries =>
    obtain ⟨s,m',heq,hinv,hlimit,hget⟩ := h.reserve env minEntries
    exact ⟨.status s,m',by rw [HashMap.step, heq]; rfl,hinv,hlimit,funext hget⟩
  | lookup key => exact ⟨_,m,rfl,h,rfl,rfl,rfl⟩

theorem TableInv.run (h : TableInv t m) (ops : List (HashOp K V)) :
    ∃ replies m', HashMap.run t m ops = some (replies, m') ∧ TableInv t m' ∧
      m'.entryLimit = m.entryLimit ∧ MapRun t (m.get t) ops replies (m'.get t) := by
  induction ops generalizing m with
  | nil => exact ⟨[],m,rfl,h,rfl,.nil⟩
  | cons op ops ih =>
    obtain ⟨reply,m₁,heq,hinv,hlimit,hstep⟩ := h.step op
    obtain ⟨replies,m₂,hrun,hinv₂,hlimit₂,hrest⟩ := ih hinv
    refine ⟨reply :: replies,m₂,?_,hinv₂,hlimit₂.trans hlimit,.cons hstep hrest⟩
    simp only [HashMap.run, heq, hrun, Option.bind_eq_bind, Option.bind_some]
    rfl

/-- Any run of calls, under any failures, computes what a map from keys to values computes, and
leaves a table with exact counters, distinct keys and unbroken probe chains. Every stored key is
found in its slot, an insertion that passed the growth check finds a free slot, and a `put` fails
only for its copies, the limit, a table beyond `2 ^ 63` slots or the allocation it needs. -/
theorem hashMap_refines (t : KeyTraits K) (entryLimit generation : Nat) (ops : List (HashOp K V)) :
    ∃ replies m, run t (hashMapInit K V entryLimit generation) ops = some (replies, m) ∧
      MapRun t (fun _ => none) ops replies (m.get t) ∧ TableInv t m ∧
      (∀ i h k v, i < m.capacity → m.slots i = .occupied h k v →
        findSlot t m k (keyHash t k) = some i) ∧
      (∀ env m', ensureInsert env m = some (.ok, m') → ∀ hash, ∃ slot < m'.capacity,
        m'.insertSlot hash = some slot ∧ (m'.slots slot).isOccupied = false) ∧
      ∀ env key value s m', put t env m key value = some (s, m') → s ≠ .ok →
        env.prepareKey ≠ .ok ∨ env.prepareValue ≠ .ok ∨ entryLimit ≤ m.size ∨ m.Unfit env := by
  have hinit : TableInv t (hashMapInit K V entryLimit generation) :=
    tableInv_emptied (hashMapInit K V entryLimit generation) (.inl rfl)
  obtain ⟨replies,m,heq,hinv,hlimit,hrun⟩ := hinit.run ops
  have hempty : (hashMapInit K V entryLimit generation).get t = fun _ => none :=
    funext fun q => hinit.get_eq_none.2 fun w => not_stored_emptied
      (hashMapInit K V entryLimit generation) 0 q w
  refine ⟨replies,m,heq,hempty ▸ hrun,hinv,fun i h k v hi hslot => ?_,
    fun env m' hensure hash => ?_,fun env key value s m' hput hs => ?_⟩
  · exact hinv.find hi hslot (t.refl k)
  · obtain ⟨status,m₁,hensure',hok,-⟩ := hinv.ensureInsert env
    rw [hensure] at hensure'
    cases hensure'
    obtain ⟨hinv₁,-,hroom⟩ := hok rfl
    obtain ⟨slot,hslot,hlt,hfree,-⟩ := hinv₁.insertSlot hroom hash
    exact ⟨slot,hlt,hslot,hfree⟩
  · obtain ⟨s',m₁,hput',-,-,hfails⟩ := hinv.put env key value
    rw [hput] at hput'
    cases hput'
    rw [show entryLimit = m.entryLimit from hlimit.symm]
    exact (hfails hs).2

def clustered : KeyTraits Nat where
  hash k := k % 4
  equal a b := a == b
  refl := by simp
  symm := by simp +contextual
  trans := by simp +contextual
  consistent := by simp +contextual

def granting : HashEnv := ⟨.ok, .ok, fun _ => .ok⟩

/-- A lookup behind a tombstone, an insertion into it, a put that grows the table, one that is not
given a larger table, and a removal. -/
def growing : List (HashOp Nat Nat) :=
  (List.range 11).map (fun k => .put granting (4 * k) k) ++
    [.remove 4, .lookup 40, .put granting 44 5, .put ⟨.ok, .ok, fun _ => .outOfMemory⟩ 48 6,
      .put granting 48 7, .remove 0, .lookup 48]

theorem growing_refines :
    (run clustered (hashMapInit Nat Nat 100 0) growing).map
        (fun r => (r.1.drop 11, r.2.capacity, r.2.size, r.2.tombstones)) =
      some ([.removed .ok (some 1), .found (some 10), .status .ok, .status .outOfMemory, .status .ok,
        .removed .ok (some 0), .found (some 7)], 32, 11, 1) ∧
    ∃ replies m, run clustered (hashMapInit Nat Nat 100 0) growing = some (replies, m) ∧
      MapRun clustered (fun _ => none) growing replies (m.get clustered) ∧ TableInv clustered m := by
  obtain ⟨replies,m,heq,hrun,hinv,-⟩ := hashMap_refines clustered 100 0 growing
  exact ⟨by decide +kernel,replies,m,heq,hrun,hinv⟩

end Salts.Cstl.HashMap
