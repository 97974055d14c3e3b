import Salts.CmetaFingerprint

/-!
The byte stream of a contract fingerprint says what the descriptor means and nothing else.  Two
projections are read side by side: each operation is read from the front of what is left of the two
streams, so that equal streams have equal rows.
-/

variable {v w size : UInt64} {r s : List UInt8} {x y : Bool}

namespace Salts.Cmeta

open List (append_assoc append_nil flatMap_cons map map_cons map_id mem_cons_self zip_map)
open TypeIdentity

variable {α γ : Type} {V : Validators} {depth : Nat}

/-! ### What a query feeds to the hash -/

def streamOf (ops : List Op) : List UInt8 := ops.flatMap Op.bytes

@[simp] theorem streamOf_cons (op : Op) (ops : List Op) :
    streamOf (op :: ops) = op.bytes ++ streamOf ops := flatMap_cons

@[simp] theorem streamOf_append (l m : List Op) : streamOf (l ++ m) = streamOf l ++ streamOf m :=
  List.flatMap_append

@[simp] theorem bytes_name (t : Text) : (Op.string t false).bytes = [] := by cases t <;> rfl

def Op.Fits : Op → Prop
  | .require holds _ => holds = true
  | .rows count _ _ => count < 2 ^ 64
  | .string text _ => ∃ x, text = some x ∧ x.length < 2 ^ 64
  | _ => True

namespace FingerprintState

variable {s t u : FingerprintState} {op : Op} {ops : List Op} {n k : Nat}

def Small (s : FingerprintState) : Prop := s.rows < 2 ^ 64 ∧ s.strings < 2 ^ 64

theorem perform_ok (hs : s.Small) (h : s.perform n op = .ok t) :
    op.Fits ∧ t.stream = s.stream ++ op.bytes ∧ t.Small := by
  obtain ⟨hrows,hstrings⟩ := hs
  unfold perform at h
  split at h
  case h_1 holds status =>
    split_ifs at h with hholds
    cases h
    exact ⟨hholds,(append_nil _).symm,hrows,hstrings⟩
  case h_2 =>
    split_ifs at h
    cases h
    exact ⟨trivial,(append_nil _).symm,hrows,hstrings⟩
  case h_3 count present stride =>
    split_ifs at h with hroom
    cases h
    exact ⟨Nat.lt_of_le_of_lt (Nat.le_of_not_lt hroom) hrows,rfl,
      Nat.lt_of_le_of_lt (Nat.sub_le _ _) hrows,hstrings⟩
  case h_4 => cases h
  case h_5 text _ =>
    split_ifs at h
    cases h
    refine ⟨⟨text,rfl,?_⟩,rfl,hrows,Nat.lt_of_le_of_lt (Nat.sub_le _ _) hstrings⟩
    omega
  case h_6 =>
    cases h
    exact ⟨trivial,rfl,hrows,hstrings⟩

theorem run_ok (hs : s.Small) (h : ops.foldlM (perform n) s = .ok t) :
    (∀ op ∈ ops, op.Fits) ∧ t.stream = s.stream ++ streamOf ops := by
  induction ops generalizing s with
  | nil =>
    cases h
    exact ⟨nofun,(append_nil _).symm⟩
  | cons op ops ih =>
    rw [List.foldlM_cons] at h
    cases hop : s.perform n op with
    | error status =>
      rw [hop] at h
      cases h
    | ok u =>
      rw [hop] at h
      obtain ⟨hfits,hstream,hu⟩ := perform_ok hs hop
      obtain ⟨hrest,ht⟩ := ih hu h
      refine ⟨List.forall_mem_cons.2 ⟨hfits,hrest⟩,?_⟩
      rw [ht, hstream, streamOf_cons, append_assoc]

structure Wider (s t : FingerprintState) : Prop where
  stream : t.stream = s.stream
  nodes : s.nodes ≤ t.nodes
  rows : s.rows ≤ t.rows
  strings : s.strings ≤ t.strings

theorem perform_mono (hw : s.Wider u) (hn : n ≤ k) (h : s.perform n op = .ok t) :
    ∃ v, u.perform k op = .ok v ∧ t.Wider v := by
  obtain ⟨hstream,hnodes,hrows,hstrings⟩ := hw
  unfold perform at h
  split at h
  case h_1 holds status =>
    split_ifs at h with hholds
    cases h
    exact ⟨u,if_pos hholds,hstream,hnodes,hrows,hstrings⟩
  case h_2 d =>
    split_ifs at h
    cases h
    refine ⟨_,if_neg ?_,hstream,Nat.sub_le_sub_right hnodes 1,hrows,hstrings⟩
    omega
  case h_3 count present stride =>
    split_ifs at h with hroom hbad
    cases h
    refine ⟨_,(if_neg ?_).trans (if_neg hbad),?_,hnodes,Nat.sub_le_sub_right hrows count,hstrings⟩
    · omega
    · exact congrArg (· ++ _) hstream
  case h_4 => cases h
  case h_5 text _ =>
    split_ifs at h with hroom hbad
    cases h
    refine ⟨_,(if_neg ?_).trans (if_neg hbad),?_,hnodes,hrows,Nat.sub_le_sub_right hstrings _⟩
    · omega
    · exact congrArg (· ++ _) hstream
  case h_6 =>
    cases h
    exact ⟨_,rfl,congrArg (· ++ _) hstream,hnodes,hrows,hstrings⟩

theorem run_mono (hw : s.Wider u) (hn : n ≤ k) (h : ops.foldlM (perform n) s = .ok t) :
    ∃ v, ops.foldlM (perform k) u = .ok v ∧ v.stream = t.stream := by
  induction ops generalizing s u with
  | nil =>
    cases h
    exact ⟨u,rfl,hw.stream⟩
  | cons op ops ih =>
    rw [List.foldlM_cons] at h ⊢
    cases hop : s.perform n op with
    | error status =>
      rw [hop] at h
      cases h
    | ok x =>
      rw [hop] at h
      obtain ⟨y,hy,hxy⟩ := perform_mono hw hn hop
      rw [hy]
      exact ih hxy h

end FingerprintState

/-! ### Two projections side by side -/

theorem word_inj (h : word v = word w) : v = w := by
  simp only [word, List.cons.injEq, ← UInt8.toNat_inj, UInt64.toNat_toUInt8,
    UInt64.toNat_shiftRight, UInt64.reduceToNat, Nat.reduceMod] at h
  apply UInt64.toNat_inj.1
  have hv := v.toNat_lt
  have hw := w.toNat_lt
  omega

theorem word_append : word v ++ r = word w ++ s ↔ v = w ∧ r = s := by
  constructor
  · intro h
    obtain ⟨hword,hrest⟩ := List.append_inj h rfl
    exact ⟨word_inj hword,hrest⟩
  · rintro ⟨rfl,rfl⟩
    rfl

theorem count_inj {m n : Nat} (hm : m < 2 ^ 64) (hn : n < 2 ^ 64)
    (h : m.toUInt64 = n.toUInt64) : m = n := by
  have := congrArg UInt64.toNat h
  simpa only [UInt64.toNat_ofNat', Nat.mod_eq_of_lt hm, Nat.mod_eq_of_lt hn]
    using this

/-- What is left to read of two streams: operations that fit, and texts that agree. -/
structure Same (l m : List Op) (r s : List UInt8) : Prop where
  left : ∀ op ∈ l, op.Fits
  right : ∀ op ∈ m, op.Fits
  eq : streamOf l ++ r = streamOf m ++ s

/-- The projection of `a` is read up to what follows it, and says `key a`. -/
def Reads (f : α → List Op) (key : α → γ) (a : α) : Prop :=
  ∀ ⦃b : α⦄ ⦃l m : List Op⦄ ⦃r s : List UInt8⦄, Same (f a ++ l) (f b ++ m) r s →
    key a = key b ∧ Same l m r s

namespace Same

variable {l m : List Op} {r s : List UInt8} {o p : Op}

theorem cons (h : Same (o :: l) (p :: m) r s) : o.Fits ∧ p.Fits ∧
    (o.bytes ++ (streamOf l ++ r) = p.bytes ++ (streamOf m ++ s)) ∧
    (streamOf l ++ r = streamOf m ++ s → Same l m r s) := by
  obtain ⟨ho,hl⟩ := List.forall_mem_cons.1 h.left
  obtain ⟨hp,hm⟩ := List.forall_mem_cons.1 h.right
  refine ⟨ho,hp,?_,fun heq => ⟨hl,hm,heq⟩⟩
  simpa using h.eq

theorem skip (h : Same (o :: l) (p :: m) r s) (ho : o.bytes = []) (hp : p.bytes = []) :
    Same l m r s := by
  obtain ⟨-,-,heq,hsame⟩ := h.cons
  rw [ho, hp] at heq
  exact hsame heq

theorem require {e f : Status} (h : Same (.require x e :: l) (.require y f :: m) r s) :
    (x = true ∧ y = true) ∧ Same l m r s :=
  ⟨⟨h.cons.1,h.cons.2.1⟩,h.skip rfl rfl⟩

theorem node {d e : Nat} (h : Same (.node d :: l) (.node e :: m) r s) : Same l m r s :=
  h.skip rfl rfl

theorem name {x y : Text} (h : Same (.string x false :: l) (.string y false :: m) r s) :
    Same l m r s :=
  h.skip (bytes_name x) (bytes_name y)

theorem number (h : Same (.number v :: l) (.number w :: m) r s) : v = w ∧ Same l m r s := by
  obtain ⟨-,-,heq,hsame⟩ := h.cons
  obtain ⟨hvw,hrest⟩ := word_append.1 heq
  exact ⟨hvw,hsame hrest⟩

theorem rows {v w j k : Nat} (h : Same (.rows v x j :: l) (.rows w y k :: m) r s) :
    v = w ∧ Same l m r s := by
  obtain ⟨hv,hw,heq,hsame⟩ := h.cons
  obtain ⟨hvw,hrest⟩ := word_append.1 heq
  exact ⟨count_inj hv hw hvw,hsame hrest⟩

theorem string {x y : Text} (h : Same (.string x true :: l) (.string y true :: m) r s) :
    x = y ∧ Same l m r s := by
  obtain ⟨⟨a,rfl,ha⟩,⟨b,rfl,hb⟩,heq,hsame⟩ := h.cons
  obtain ⟨hlen,htext⟩ := word_append.1 heq
  obtain ⟨rfl,hrest⟩ := List.append_inj htext (count_inj ha hb hlen)
  exact ⟨rfl,hsame hrest⟩

theorem flatMap {f : α → List Op} {key : α → γ} {as bs : List α} (hf : ∀ a ∈ as, Reads f key a)
    (hlen : as.length = bs.length) (h : Same (as.flatMap f ++ l) (bs.flatMap f ++ m) r s) :
    as.map key = bs.map key ∧ Same l m r s := by
  induction as generalizing bs with
  | nil =>
    obtain rfl := List.length_eq_zero_iff.1 hlen.symm
    exact ⟨rfl,h⟩
  | cons a as ih =>
    match bs, hlen with
    | b :: bs, hlen =>
      rw [flatMap_cons, flatMap_cons, append_assoc, append_assoc] at h
      obtain ⟨hkey,hrest⟩ := hf a mem_cons_self h
      obtain ⟨hkeys,hend⟩ := ih (fun a ha => hf a (.tail _ ha)) (Nat.succ.inj hlen) hrest
      exact ⟨by rw [map_cons, map_cons, hkey, hkeys],hend⟩

end Same

/-! ### The semantic content of a descriptor -/

variable {β : Type} {l m : List Op} {r s : List UInt8}

def GenericDesc.content (g : GenericDesc) : GenericDesc := { g with displayName := none }

namespace TypeIdentity

mutual

def content : TypeIdentity → TypeIdentity
  | .pointer base => .pointer base.content
  | .const base => .const base.content
  | .apply constructor args _ =>
    .apply (constructor.map GenericDesc.content) (contents args) true
  | id => id

def contents : List TypeIdentity → List TypeIdentity
  | [] => []
  | id :: ids => id.content :: contents ids

end

def form : TypeIdentity → UInt64
  | .atom _ => 0
  | .pointer _ => 1
  | .const _ => 2
  | .apply _ _ _ => 3
  | _ => 4

end TypeIdentity

def TypeDesc.content : TypeDesc → TypeDesc
  | .null => .null
  | .mk _ id size align kind traits pointee =>
    .mk none id.content size align kind (some (traits.getD 0)) pointee.content

def DeclaredType.content (d : DeclaredType) : DeclaredType where
  storageType := d.storageType.content
  constructor := d.constructor.map GenericDesc.content
  arguments := d.arguments.map TypeDesc.content
  construction := d.construction

def FieldDesc.content (f : FieldDesc) : FieldDesc :=
  { f with
    type := f.type.content
    declaredType := f.declaredType.map DeclaredType.content }

def StructDesc.content (d : StructDesc) : StructDesc :=
  { d with name := none, fields := d.fields.map FieldDesc.content, present := true }

def EnumItem.content (x : EnumItem) : EnumItem := { x with text := none }

def EnumDomain.content (d : EnumDomain) : EnumDomain :=
  { d with complete := true, items := d.items.map EnumItem.content, present := true }

def ParamDesc.content (p : ParamDesc) : ParamDesc where
  name := none
  type := p.type.content
  flags := p.flags

def FunctionDesc.content (f : FunctionDesc) : FunctionDesc :=
  { f with
    address := 0
    complete := true
    name := none
    returnType := f.returnType.content
    params := f.params.map ParamDesc.content
    present := true }

def FunctionAbi.content (abi : FunctionAbi) : FunctionAbi :=
  { abi with complete := true, function := abi.function.content, present := true }

def MethodDesc.content (m : MethodDesc) : MethodDesc :=
  { m with complete := true, function := 0, abi := m.abi.map FunctionAbi.content }

def InterfaceDesc.content (d : InterfaceDesc) : InterfaceDesc where
  name := none
  methods := d.methods.map MethodDesc.content

def DataDesc.content (d : DataDesc) : DataDesc :=
  { d with storageType := d.storageType.content }

def Capability.content (c : Capability) : Capability :=
  { c with interfaceDesc := c.interfaceDesc.map InterfaceDesc.content }

def ComponentDesc.content (d : ComponentDesc) : ComponentDesc where
  formatVersion := d.formatVersion
  stableId := none
  config := d.config.map DataDesc.content
  capabilities := d.capabilities.map Capability.content

def Descriptor.content : Descriptor → Descriptor
  | .type d => .type d.content
  | .struct d => .struct d.content
  | .enum d => .enum d.content
  | .function d => .function d.content
  | .interface d => .interface d.content
  | .component d => .component d.content

/-! ### Reading the rows -/

theorem Same.not_refused (h : Same l m r s)
    (hm : ∃ e, .require false e ∈ l ∨ .require false e ∈ m) : False := by
  obtain ⟨e,hm | hm⟩ := hm
  · exact Bool.false_ne_true (h.left _ hm)
  · exact Bool.false_ne_true (h.right _ hm)

theorem generic_reads (a : Option GenericDesc) :
    Reads (generic V) (Option.map GenericDesc.content) a := by
  intro b l m r s h
  match a, b with
  | none, _ => exact (h.not_refused ⟨_,.inl mem_cons_self⟩).elim
  | some _, none => exact (h.not_refused ⟨_,.inr mem_cons_self⟩).elim
  | some a, some b =>
    obtain ⟨hid,h⟩ := h.string
    obtain ⟨hmin,h⟩ := h.name.require.2.number
    obtain ⟨hmax,h⟩ := h.number
    obtain ⟨hcategory,h⟩ := h.number
    exact ⟨by simp [GenericDesc.content, hid, hmin, hmax, hcategory],h⟩

theorem identity_form {b : TypeIdentity} (hne : v ≠ b.form) :
    ¬ Same (.node depth :: .number v :: l) (identity V depth b ++ m) r s := by
  intro h
  cases b with
  | null => exact h.not_refused ⟨_,.inr mem_cons_self⟩
  | unknown form => exact h.not_refused ⟨.invalidArgument,by simp [identity, refuse]⟩
  | _ =>
    exact hne h.node.number.1

mutual

theorem identity_reads (depth : Nat) :
    (a : TypeIdentity) → Reads (identity V depth) content a
  | .null => fun _ _ _ _ _ h => (h.not_refused ⟨_, .inl mem_cons_self⟩).elim
  | .unknown form => fun _ _ _ _ _ h => (h.not_refused ⟨.invalidArgument, by simp [identity, refuse]⟩).elim
  | .atom id => by
    intro b l m r s h
    rw [identity] at h
    cases b
    case atom id' =>
      obtain ⟨rfl, h⟩ := h.node.number.2.string
      exact ⟨rfl,h.require.2⟩
    all_goals exact absurd h (identity_form (by simp [form]))
  | .pointer base => by
    intro b l m r s h
    rw [identity] at h
    cases b
    case pointer base' =>
      rw [identity, append_assoc, append_assoc] at h
      obtain ⟨hbase,h⟩ := identity_reads (depth + 1) base h.node.number.2
      exact ⟨congrArg pointer hbase,h.require.2⟩
    all_goals exact absurd h (identity_form (by simp [form]))
  | .const base => by
    intro b l m r s h
    rw [identity] at h
    cases b
    case const base' =>
      rw [identity, append_assoc, append_assoc] at h
      obtain ⟨hbase,h⟩ := identity_reads (depth + 1) base h.node.number.2
      exact ⟨congrArg const hbase,h.require.2⟩
    all_goals exact absurd h (identity_form (by simp [form]))
  | .apply constructor args present => by
    intro b l m r s h
    rw [identity] at h
    cases b
    case apply constructor' args' present' =>
      rw [identity] at h
      simp only [append_assoc] at h
      obtain ⟨hconstructor,h⟩ := generic_reads constructor h.node.number.2
      obtain ⟨hlen,h⟩ := h.rows
      obtain ⟨hargs,h⟩ := identities_reads (depth + 1) args hlen h
      exact ⟨by rw [content, content, hconstructor, hargs],h.require.2⟩
    all_goals exact absurd h (identity_form (by simp [form]))

theorem identities_reads (depth) : (as : List TypeIdentity) → {bs : List TypeIdentity} →
    as.length = bs.length → {l m : List Op} → {r s : List UInt8} →
    Same (identities V depth as ++ l) (identities V depth bs ++ m) r s →
    contents as = contents bs ∧ Same l m r s
  | [], [], _, _, _, _, _, h => ⟨rfl, h⟩
  | a :: as, b :: bs, hlen, l, m, r, s, h => by
    rw [identities, identities, append_assoc, append_assoc] at h
    obtain ⟨hhead, h⟩ := identity_reads depth a h
    obtain ⟨htail,h⟩ := identities_reads depth as (Nat.succ.inj hlen) h
    exact ⟨by rw [contents, contents, hhead, htail],h⟩

end

theorem flag_inj (h : x.toUInt64 = y.toUInt64) : x = y := by
  cases x <;> cases y <;> first | rfl | cases h

theorem Same.optional {f : TypeDesc → List Op} {t u : TypeDesc} (hf : Reads f TypeDesc.content t)
    (h : Same (flag (!t.isNull) :: ((if t.isNull then [] else f t) ++ l))
      (flag (!u.isNull) :: ((if u.isNull then [] else f u) ++ m)) r s) :
    t.content = u.content ∧ Same l m r s := by
  obtain ⟨hflag,h⟩ := h.number
  have hnull : t.isNull = u.isNull := Bool.not_inj (flag_inj hflag)
  match t, u with
  | .null, .null => exact ⟨rfl,h⟩
  | .mk .., .mk .. => exact hf h
  | .null, .mk .. | .mk .., .null => cases hnull

theorem Same.option {f : α → List Op} {key : α → β} {x y : Option α} (hf : ∀ a, Reads f key a)
    (h : Same (flag x.isSome :: (x.elim [] f ++ l)) (flag y.isSome :: (y.elim [] f ++ m)) r s) :
    x.map key = y.map key ∧ Same l m r s := by
  obtain ⟨hflag,h⟩ := h.number
  have hsome := flag_inj hflag
  match x, y with
  | none, none => exact ⟨rfl,h⟩
  | some a, some b =>
    obtain ⟨hkey,h⟩ := hf a h
    exact ⟨congrArg some hkey,h⟩
  | none, some _ | some _, none => cases hsome

theorem type_reads (depth : Nat) : (a : TypeDesc) → Reads (type V depth) TypeDesc.content a
  | .null => fun _ _ _ _ _ h => (h.not_refused ⟨_, .inl mem_cons_self⟩).elim
  | .mk name id size align kind traits pointee => by
    intro b l m r s h
    cases b with
    | null => exact (h.not_refused ⟨_, .inr mem_cons_self⟩).elim
    | mk name' id' size' align' kind' traits' pointee' =>
      rw [type, type] at h
      simp only [append_assoc] at h
      obtain ⟨hid, h⟩ := identity_reads (depth+1) id h.require.2.node.name
      obtain ⟨hsize,h⟩ := h.number
      obtain ⟨halign,h⟩ := h.number
      obtain ⟨hkind,h⟩ := h.number
      obtain ⟨htraits,h⟩ := h.number
      obtain ⟨hpointee,h⟩ := h.optional (type_reads (depth + 1) pointee)
      refine ⟨?_,h.require.2⟩
      rw [TypeDesc.content, TypeDesc.content, hid, hsize, halign, hkind, htraits, hpointee]

theorem declared_reads (a : DeclaredType) : Reads (declared V depth) DeclaredType.content a := by
  intro b l m r s h
  simp only [declared, append_assoc] at h
  obtain ⟨hconstructor,h⟩ := generic_reads a.constructor h.node
  obtain ⟨hstorage,h⟩ := type_reads (depth + 1) a.storageType h
  obtain ⟨hlen,h⟩ := h.rows
  obtain ⟨harguments,h⟩ := h.flatMap (fun x _ => type_reads (depth + 1) x) hlen
  obtain ⟨hconstruction,h⟩ := h.require.2.require.2.number
  refine ⟨?_,h⟩
  rw [DeclaredType.content, DeclaredType.content, hconstructor, hstorage, harguments,
    flag_inj hconstruction]

theorem field_reads (a : FieldDesc) : Reads (field V depth size) FieldDesc.content a := by
  intro b l m r s h
  simp only [field, append_assoc] at h
  obtain ⟨hname,h⟩ := h.require.2.require.2.string
  obtain ⟨hoffset,h⟩ := h.number
  obtain ⟨hsize,h⟩ := h.number
  obtain ⟨halign,h⟩ := h.number
  obtain ⟨htype,h⟩ := type_reads (depth + 1) a.type h.require.2
  obtain ⟨hdeclared,h⟩ := h.require.2.option declared_reads
  refine ⟨?_,h⟩
  rw [FieldDesc.content, FieldDesc.content, hname, hoffset, hsize, halign, htype, hdeclared]

theorem structure_reads (a : StructDesc) : Reads (structure_ V depth) StructDesc.content a := by
  intro b l m r s h
  obtain ⟨hsize,h⟩ := h.require.2.node.name.number
  obtain ⟨halign,h⟩ := h.number
  obtain ⟨hlen,h⟩ := h.rows
  rw [hsize] at h
  obtain ⟨hfields,h⟩ := h.flatMap (fun x _ => field_reads x) hlen
  refine ⟨?_,h⟩
  rw [StructDesc.content, StructDesc.content, hsize, halign, hfields]

theorem enumItem_reads (a : EnumItem) : Reads enumItem EnumItem.content a := by
  intro b l m r s h
  obtain ⟨hbits,h⟩ := h.number
  obtain ⟨hsymbol,h⟩ := h.string
  refine ⟨?_,h.name⟩
  rw [EnumItem.content, EnumItem.content, hbits, hsymbol]

theorem enumeration_reads (a : EnumDomain) : Reads (enumeration V depth) EnumDomain.content a := by
  intro b l m r s h
  simp only [enumeration, append_assoc] at h
  obtain ⟨⟨hversion,hversion'⟩,h⟩ := h.require.2.require
  obtain ⟨hsignedness,h⟩ := h.node.number
  obtain ⟨hbits,h⟩ := h.number
  obtain ⟨hkind,h⟩ := h.number
  obtain ⟨hmask,h⟩ := h.number
  obtain ⟨hlen,h⟩ := h.rows
  obtain ⟨hitems,h⟩ := h.flatMap (fun x _ => enumItem_reads x) hlen
  refine ⟨?_,h.require.2⟩
  rw [EnumDomain.content, EnumDomain.content, hsignedness, hbits, hkind, hmask, hitems,
    eq_of_beq hversion, eq_of_beq hversion']

theorem parameter_reads (a : ParamDesc × UInt64) :
    Reads (parameter V depth) (Prod.map ParamDesc.content id) a := by
  intro b l m r s h
  obtain ⟨hflags,h⟩ := h.require.2.require.2.name.number
  obtain ⟨hcarrier,h⟩ := h.number
  obtain ⟨htype,h⟩ := type_reads (depth + 1) a.1.type h
  refine ⟨Prod.ext ?_ hcarrier,h⟩
  show a.1.content = b.1.content
  rw [ParamDesc.content, ParamDesc.content, hflags, htype]

theorem zip_inj {as as' : List α} {bs bs' : List β} (h : as.length = bs.length)
    (h' : as'.length = bs'.length) (heq : as.zip bs = as'.zip bs') : as = as' ∧ bs = bs' := by
  constructor
  · simpa [List.map_fst_zip, h, h'] using congrArg (map Prod.fst) heq
  · simpa [List.map_snd_zip, h, h'] using congrArg (map Prod.snd) heq

theorem function_reads (a : Option FunctionAbi) :
    Reads (function V depth) (Option.map FunctionAbi.content) a := by
  intro b l m r s h
  match a, b with
  | none, _ => exact (h.not_refused ⟨_,.inl mem_cons_self⟩).elim
  | some _, none => exact (h.not_refused ⟨_,.inr mem_cons_self⟩).elim
  | some a, some b =>
    simp only [function, append_assoc] at h
    obtain ⟨⟨ha,hb⟩,h⟩ := h.require.2.require
    obtain ⟨hreturn,h⟩ := h.require.2.node.name.number
    obtain ⟨htype,h⟩ := type_reads (depth + 1) a.function.returnType h
    obtain ⟨heffects,h⟩ := h.number
    obtain ⟨hproperties,h⟩ := h.number
    obtain ⟨hresult,h⟩ := h.number
    obtain ⟨hlen,h⟩ := h.rows
    rw [beq_iff_eq] at ha hb
    have hzip : (a.function.params.zip a.paramCarriers).length =
        (b.function.params.zip b.paramCarriers).length := by
      rw [List.length_zip, List.length_zip, ha, hb, hlen]
    obtain ⟨hparams,h⟩ := h.require.2.flatMap (fun x _ => parameter_reads x) hzip
    rw [← zip_map, ← zip_map, map_id, map_id] at hparams
    obtain ⟨hparams,hcarriers⟩ := zip_inj (by simp [ha]) (by simp [hb]) hparams
    refine ⟨congrArg some ?_,h.require.2⟩
    rw [FunctionAbi.content, FunctionAbi.content, FunctionDesc.content, FunctionDesc.content,
      hreturn, htype, heffects, hproperties, hresult, hparams, hcarriers]

theorem method_reads (a : MethodDesc) : Reads (method V depth) MethodDesc.content a := by
  intro b l m r s h
  simp only [method, append_assoc] at h
  obtain ⟨hname,h⟩ := h.require.2.require.2.string
  obtain ⟨harity,h⟩ := h.number
  obtain ⟨hflags,h⟩ := h.number
  obtain ⟨habi,h⟩ := function_reads a.abi h
  refine ⟨?_,h.require.2⟩
  rw [MethodDesc.content, MethodDesc.content, hname, harity, hflags, habi]

theorem interface_reads (a : Option InterfaceDesc) :
    Reads (interfaceContract V depth) (Option.map InterfaceDesc.content) a := by
  intro b l m r s h
  match a, b with
  | none, _ => exact (h.not_refused ⟨_,.inl mem_cons_self⟩).elim
  | some _, none => exact (h.not_refused ⟨_,.inr mem_cons_self⟩).elim
  | some a, some b =>
    simp only [interfaceContract, append_assoc] at h
    obtain ⟨hlen,h⟩ := h.require.2.node.name.rows
    obtain ⟨hmethods,h⟩ := h.flatMap (fun x _ => method_reads x) hlen
    refine ⟨congrArg some ?_,h.require.2⟩
    rw [InterfaceDesc.content, InterfaceDesc.content, hmethods]

theorem data_reads (a : DataDesc) : Reads (dataContractIdentity V depth) DataDesc.content a := by
  intro b l m r s h
  obtain ⟨hid,h⟩ := h.require.2.node.string
  obtain ⟨hkind,h⟩ := h.number
  obtain ⟨htype,h⟩ := h.optional (type_reads (depth + 1) a.storageType)
  refine ⟨?_,h⟩
  rw [DataDesc.content, DataDesc.content, hid, hkind, htype]

theorem capability_reads (a : Capability) : Reads (capability V depth) Capability.content a := by
  intro b l m r s h
  obtain ⟨hrole,h⟩ := h.require.2.number
  obtain ⟨hinterface,h⟩ := interface_reads a.interfaceDesc h
  refine ⟨?_,h⟩
  rw [Capability.content, Capability.content, hrole, hinterface]

theorem component_reads (a : ComponentDesc) :
    Reads (componentContract V depth) ComponentDesc.content a := by
  intro b l m r s h
  simp only [componentContract, append_assoc] at h
  obtain ⟨hversion,h⟩ := h.require.2.require.2.node.name.number
  obtain ⟨hconfig,h⟩ := h.option data_reads
  obtain ⟨hlen,h⟩ := h.rows
  obtain ⟨hcapabilities,h⟩ := h.flatMap (fun x _ => capability_reads x) hlen
  refine ⟨?_,h.require.2⟩
  rw [ComponentDesc.content, ComponentDesc.content, hversion, hconfig, hcapabilities]

/-! ### What the names leave in the stream -/

theorem stream_generic (g : Option GenericDesc) :
    streamOf (generic V (g.map GenericDesc.content)) = streamOf (generic V g) := by
  cases g <;> simp [generic, GenericDesc.content, Op.bytes]

mutual

theorem stream_identity (depth : Nat) :
    (a : TypeIdentity) → streamOf (identity V depth a.content) = streamOf (identity V depth a)
  | .null => rfl
  | .atom _ => rfl
  | .unknown _ => rfl
  | .pointer base => by
    simp [identity, content, Op.bytes, stream_identity (depth + 1) base]
  | .const base => by
    simp [identity, content, Op.bytes, stream_identity (depth + 1) base]
  | .apply constructor args _ => by
    simp [identity, content, Op.bytes, stream_generic, length_contents args,
      stream_identities (depth + 1) args]

theorem stream_identities (depth : Nat) : (as : List TypeIdentity) →
    streamOf (identities V depth (contents as)) = streamOf (identities V depth as)
  | [] => rfl
  | a :: as => by
    simp [identities, contents, stream_identity depth a, stream_identities depth as]

theorem length_contents : (as : List TypeIdentity) →
    (contents as).length = as.length
  | [] => rfl
  | _ :: as => by simp [contents, length_contents as]

end

theorem isNull_content (a : TypeDesc) : a.content.isNull = a.isNull := by cases a <;> rfl

theorem stream_type (depth : Nat) :
    (a : TypeDesc) → streamOf (type V depth a.content) = streamOf (type V depth a)
  | .null => rfl
  | .mk name id size align kind traits pointee => by
    have hpointee := stream_type (depth+1) pointee
    cases hnull : pointee.isNull <;>
      simp [type, TypeDesc.content, Op.bytes, stream_identity, isNull_content, hnull, hpointee]

theorem stream_map {f : α → List Op} {key : α → α} (h : ∀ a, streamOf (f (key a)) = streamOf (f a))
    (as : List α) : streamOf ((as.map key).flatMap f) = streamOf (as.flatMap f) := by
  induction as with
  | nil => rfl
  | cons a as ih => simp [h, ih]

theorem stream_declared (a : DeclaredType) :
    streamOf (declared V depth a.content) = streamOf (declared V depth a) := by
  simp [declared, DeclaredType.content, Op.bytes, stream_generic, stream_type, stream_map]

theorem stream_field (a : FieldDesc) :
    streamOf (field V depth size a.content) = streamOf (field V depth size a) := by
  cases hd : a.declaredType <;>
    simp [field, FieldDesc.content, Op.bytes, stream_type, stream_declared, hd]

theorem stream_enumItem (a : EnumItem) : streamOf (enumItem a.content) = streamOf (enumItem a) := by
  simp [enumItem, EnumItem.content]

theorem stream_parameter (a : ParamDesc × UInt64) :
    streamOf (parameter V depth (Prod.map ParamDesc.content id a)) =
      streamOf (parameter V depth a) := by
  simp [parameter, ParamDesc.content, Op.bytes, stream_type]

theorem stream_function (a : Option FunctionAbi) :
    streamOf (function V depth (a.map FunctionAbi.content)) = streamOf (function V depth a) := by
  cases a with
  | none => rfl
  | some a =>
    have hzip : (a.function.params.map ParamDesc.content).zip a.paramCarriers =
        (a.function.params.zip a.paramCarriers).map (Prod.map ParamDesc.content id) := by
      rw [← zip_map, map_id]
    simp [function, FunctionAbi.content, FunctionDesc.content, Op.bytes, stream_type, hzip,
      stream_map stream_parameter]

theorem stream_method (a : MethodDesc) :
    streamOf (method V depth a.content) = streamOf (method V depth a) := by
  simp [method, MethodDesc.content, Op.bytes, stream_function]

theorem stream_interface (a : Option InterfaceDesc) :
    streamOf (interfaceContract V depth (a.map InterfaceDesc.content)) =
      streamOf (interfaceContract V depth a) := by
  cases a <;> simp [interfaceContract, InterfaceDesc.content, Op.bytes, stream_map stream_method]

theorem stream_data (a : DataDesc) :
    streamOf (dataContractIdentity V depth a.content) =
      streamOf (dataContractIdentity V depth a) := by
  cases hnull : a.storageType.isNull <;>
    simp [dataContractIdentity, DataDesc.content, Op.bytes, stream_type, isNull_content, hnull]

theorem stream_capability (a : Capability) :
    streamOf (capability V depth a.content) = streamOf (capability V depth a) := by
  simp [capability, Capability.content, stream_interface]

theorem stream_content (d : Descriptor) :
    streamOf (d.content.project V) = streamOf (d.project V) := by
  cases d with
  | type d => exact stream_type 0 d
  | function d => exact stream_function (some d)
  | interface d => exact stream_interface (some d)
  | struct d =>
    simp [Descriptor.content, Descriptor.project, structure_, StructDesc.content, Op.bytes,
      stream_map stream_field]
  | enum d =>
    simp [Descriptor.content, Descriptor.project, enumeration, EnumDomain.content, Op.bytes,
      stream_map stream_enumItem]
  | component d =>
    cases hconfig : d.config <;>
      simp [Descriptor.content, Descriptor.project, componentContract, ComponentDesc.content,
        Op.bytes, stream_data, stream_map stream_capability, hconfig]

theorem content_eq {d e : Descriptor} (hdomain : d.domain = e.domain)
    (h : Same (d.project V ++ []) (e.project V ++ []) [] []) : d.content = e.content := by
  match d, e with
  | .type d, .type e => exact congrArg Descriptor.type (type_reads 0 d h).1
  | .struct d, .struct e => exact congrArg Descriptor.struct (structure_reads d h).1
  | .enum d, .enum e => exact congrArg Descriptor.enum (enumeration_reads d h).1
  | .function d, .function e =>
    have h : Same (function V 0 (some d) ++ []) (function V 0 (some e) ++ []) [] [] := h
    exact congrArg Descriptor.function (Option.some.inj (function_reads (some d) h).1)
  | .interface d, .interface e =>
    have h : Same (interfaceContract V 0 (some d) ++ []) (interfaceContract V 0 (some e) ++ [])
      [] [] := h
    exact congrArg Descriptor.interface (Option.some.inj (interface_reads (some d) h).1)
  | .component d, .component e => exact congrArg Descriptor.component (component_reads d h).1

/-! ### The queries -/

def contractStream (V : Validators) (d : Descriptor) : List UInt8 :=
  envelope d.domain ++ streamOf (d.project V)

theorem envelope_append : envelope v ++ r = envelope w ++ s ↔ v = w ∧ r = s := by
  simp [envelope, word_append]

/-- Limits that leave at least as much room, with a depth that `begin` still accepts. -/
structure Limits.Enlarged (limits larger : Limits) : Prop where
  depth : limits.maxDepth ≤ larger.maxDepth
  accepted : larger.maxDepth ≤ 64
  nodes : limits.maxNodes ≤ larger.maxNodes
  rows : limits.maxRows ≤ larger.maxRows
  strings : limits.maxStringBytes ≤ larger.maxStringBytes

namespace Limits.Enlarged

variable {limits larger : Limits}

theorem of_accepted (h : limits.Enlarged larger) (hl : limits.accepted = true) :
    larger.accepted = true := by
  obtain ⟨hdepth,haccepted,hnodes,hrows,hstrings⟩ := h
  simp only [Limits.accepted, Bool.and_eq_true, bne_iff_ne, decide_eq_true_eq, ne_eq,
    ← UInt64.toNat_inj, UInt64.le_iff_toNat_le] at *
  have h0 : UInt64.toNat 0 = 0 := rfl
  omega

theorem wider (h : limits.Enlarged larger) (domain : UInt64) :
    (limits.start domain).Wider (larger.start domain) :=
  ⟨rfl,UInt64.le_iff_toNat_le.1 h.nodes,UInt64.le_iff_toNat_le.1 h.rows,
    UInt64.le_iff_toNat_le.1 h.strings⟩

end Limits.Enlarged

theorem fingerprint_ok {d : Descriptor} {limits : Limits} {out : UInt64}
    (h : (contractFingerprint V d limits out).1 = none) :
    (∀ op ∈ d.project V, op.Fits) ∧
    contractFingerprint V d limits out = (none, fingerprintOf (contractStream V d)) ∧
    ∀ larger, limits.Enlarged larger →
      contractFingerprint V d larger out = (none, fingerprintOf (contractStream V d)) := by
  simp only [contractFingerprint] at h ⊢
  cases hl : limits.accepted with
  | false => simp [hl] at h
  | true =>
    simp only [hl] at h ⊢
    cases hok : (d.project V).foldlM (FingerprintState.perform limits.maxDepth.toNat)
        (limits.start d.domain) with
    | error status => simp [hok] at h
    | ok s =>
      obtain ⟨hfits,hstream⟩ := FingerprintState.run_ok
        ⟨limits.maxRows.toNat_lt,limits.maxStringBytes.toNat_lt⟩ hok
      refine ⟨hfits,congrArg (fun l => (none,fingerprintOf l)) hstream,fun larger hlarger => ?_⟩
      obtain ⟨t,ht,hsame⟩ := FingerprintState.run_mono (hlarger.wider _)
        (UInt64.le_iff_toNat_le.1 hlarger.depth) hok
      rw [hlarger.of_accepted hl, ht]
      show (none,fingerprintOf t.stream) = _
      rw [hsame, hstream]
      rfl

/-- The stream fed to the hash is an injective encoding of the content: descriptors of one domain
that the queries accept have one stream exactly when their content is equal, and the streams of two
domains differ.  Larger limits of an accepted depth leave a successful result as it is, and a query
that fails leaves its output alone. -/
theorem contract_fingerprint_encodes (V : Validators) :
    (∀ d e limits limits' out out', (contractFingerprint V d limits out).1 = none →
      (contractFingerprint V e limits' out').1 = none → d.domain = e.domain →
      (contractStream V d = contractStream V e ↔ d.content = e.content)) ∧
    (∀ d e, d.domain ≠ e.domain → contractStream V d ≠ contractStream V e) ∧
    (∀ d limits larger out, (contractFingerprint V d limits out).1 = none →
      limits.Enlarged larger →
      contractFingerprint V d limits out = (none, fingerprintOf (contractStream V d)) ∧
      contractFingerprint V d larger out = contractFingerprint V d limits out) ∧
    ∀ d limits out, (contractFingerprint V d limits out).1 ≠ none →
      (contractFingerprint V d limits out).2 = out := by
  refine ⟨?_,?_,?_,?_⟩
  · intro d e limits limits' out out' hd he hdomain
    constructor
    · intro heq
      refine content_eq (V := V) hdomain ⟨?_,?_,?_⟩
      · simpa using (fingerprint_ok hd).1
      · simpa using (fingerprint_ok he).1
      · simpa using (envelope_append.1 heq).2
    · intro hcontent
      rw [contractStream, contractStream, hdomain, ← stream_content d, hcontent, stream_content e]
  · intro d e hne heq
    exact hne (envelope_append.1 heq).1
  · intro d limits larger out hok hlarger
    obtain ⟨-,hd,hlarge⟩ := fingerprint_ok hok
    exact ⟨hd,(hlarge larger hlarger).trans hd.symm⟩
  · intro d limits out hfail
    unfold contractFingerprint at hfail ⊢
    split_ifs at hfail ⊢
    · rfl
    · split at hfail
      · rfl
      · exact absurd rfl hfail

def intType (name : List UInt8) (size : UInt64) : Descriptor :=
  .type (.mk (some name) (.atom (some [105])) size 4 2 none .null)

def plainInt : Descriptor := intType [105, 110, 116] 4

def acceptAll : Validators where
  generic _ := true
  identity _ := true
  type _ := true
  declared _ := true
  constructible _ := true
  enumDomain _ := true
  functionAbi _ := true
  interface _ := true
  data _ := true
  component _ := true

/-- The display name of a type is not in its stream, its size is. -/
theorem intType_encodes :
    contractFingerprint acceptAll plainInt ⟨3, 2, 1, 9⟩ 0 =
      contractFingerprint acceptAll plainInt ⟨2, 2, 1, 6⟩ 0 ∧
    contractStream acceptAll plainInt = contractStream acceptAll (intType [110] 4) ∧
    contractStream acceptAll plainInt ≠ contractStream acceptAll (intType [105, 110, 116] 8) := by
  obtain ⟨hencodes,-,hlarger,-⟩ := contract_fingerprint_encodes acceptAll
  refine ⟨?_,?_,?_⟩
  · exact (hlarger plainInt ⟨2,2,1,6⟩ ⟨3,2,1,9⟩ 0 (by decide +kernel)
      ⟨by decide,by decide,by decide,by decide,by decide⟩).2
  · exact (hencodes plainInt (intType [110] 4) ⟨2,2,1,6⟩ ⟨2,2,1,6⟩ 0 0 (by decide +kernel)
      (by decide +kernel) rfl).2 rfl
  · intro heq
    have hcontent := (hencodes plainInt (intType [105,110,116] 8) ⟨2,2,1,6⟩ ⟨2,2,1,6⟩ 0 0
      (by decide +kernel) (by decide +kernel) rfl).1 heq
    simp [plainInt, intType, Descriptor.content, TypeDesc.content] at hcontent

/-- Beyond the greatest depth, larger limits turn a success into a refusal. -/
theorem intType_refused :
    (contractFingerprint acceptAll plainInt ⟨64, 2, 1, 6⟩ 0).1 = none ∧
    (contractFingerprint acceptAll plainInt ⟨65, 2, 1, 6⟩ 0).1 = some .invalidArgument := by
  decide +kernel

end Salts.Cmeta
