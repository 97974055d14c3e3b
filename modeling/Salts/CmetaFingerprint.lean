import Mathlib.Data.UInt

/-!
The contract fingerprint of `fingerprint.c`.  A projection walks a descriptor and performs a fixed
sequence of operations, each of which charges a budget, feeds the hash or refuses; so a projection
is the list of its operations, and a query performs them up to the first that fails.

Descriptors are read only, so references to them are the descriptors themselves.  A number of the
source is the 64-bit number that is fed to the hash.
-/

namespace Salts.Cmeta

abbrev Text := Option (List UInt8)

inductive Status where
  | invalidArgument
  | typeMismatch
  | capacityExceeded
  deriving DecidableEq

structure GenericDesc where
  stableId : Text
  displayName : Text
  minArity : UInt64
  maxArity : UInt64
  category : UInt64

inductive TypeIdentity where
  | null
  | atom (stableAtomId : Text)
  | pointer (base : TypeIdentity)
  | const (base : TypeIdentity)
  | apply (constructor : Option GenericDesc) (args : List TypeIdentity) (present : Bool)
  | unknown (form : UInt64)

inductive TypeDesc where
  | null
  | mk (name : Text) (identity : TypeIdentity) (size align kind : UInt64) (traits : Option UInt64)
      (pointee : TypeDesc)

def TypeDesc.isNull : TypeDesc → Bool
  | .null => true
  | _ => false

def TypeDesc.layout : TypeDesc → UInt64 × UInt64
  | .null => (0, 0)
  | .mk _ _ size align _ _ _ => (size, align)

structure DeclaredType where
  storageType : TypeDesc
  constructor : Option GenericDesc
  arguments : List TypeDesc
  present : Bool := true
  construction : Bool := false

structure FieldDesc where
  name : Text
  offset : UInt64
  size : UInt64
  align : UInt64
  type : TypeDesc
  declaredType : Option DeclaredType := none

structure StructDesc where
  name : Text
  size : UInt64
  align : UInt64
  fields : List FieldDesc
  present : Bool := true

structure EnumItem where
  bits : UInt64
  symbol : Text
  text : Text

/-- `complete` is whether the recorded size covers the structure, here and below. -/
structure EnumDomain where
  complete : Bool := true
  abiVersion : UInt64 := 1
  signedness : UInt64
  bits : UInt64
  kind : UInt64
  declaredMask : UInt64
  items : List EnumItem
  present : Bool := true

structure ParamDesc where
  complete : Bool := true
  name : Text
  type : TypeDesc
  flags : UInt64

structure FunctionDesc where
  address : Nat
  complete : Bool := true
  name : Text
  returnType : TypeDesc
  params : List ParamDesc
  present : Bool := true
  effects : UInt64
  properties : UInt64
  resultFlags : UInt64

structure FunctionAbi where
  complete : Bool := true
  function : FunctionDesc
  returnCarrier : UInt64
  paramCarriers : List UInt64
  present : Bool := true

structure MethodDesc where
  complete : Bool := true
  name : Text
  dispatchArity : UInt64
  flags : UInt64
  function : Nat
  abi : Option FunctionAbi

structure InterfaceDesc where
  complete : Bool := true
  name : Text
  methods : List MethodDesc
  present : Bool := true

structure DataDesc where
  stableId : Text
  kind : UInt64
  storageType : TypeDesc

structure Capability where
  role : UInt64
  interfaceDesc : Option InterfaceDesc

structure ComponentDesc where
  complete : Bool := true
  formatVersion : UInt64 := 2
  stableId : Text
  config : Option DataDesc
  capabilities : List Capability
  present : Bool := true

/-- The canonical validators.  They accept or refuse a descriptor and leave nothing in the stream,
so what is proved of the projections is proved for any. -/
structure Validators where
  generic : GenericDesc → Bool
  identity : TypeIdentity → Bool
  type : TypeDesc → Bool
  declared : DeclaredType → Bool
  constructible : DeclaredType → Bool
  enumDomain : EnumDomain → Bool
  functionAbi : FunctionAbi → Bool
  interface : InterfaceDesc → Bool
  data : DataDesc → Bool
  component : ComponentDesc → Bool

/-- What a projection does to its state: `fail` unless something holds, and the functions `node`,
`rows`, `string` and `number`. -/
inductive Op where
  | require (holds : Bool) (status : Status)
  | node (depth : Nat)
  | rows (count : Nat) (present : Bool) (stride : Nat)
  | string (text : Text) (semantic : Bool)
  | number (value : UInt64)

/-- `cmeta_abi_fingerprint_u64`: the low byte first. -/
def word (v : UInt64) : List UInt8 :=
  [v.toUInt8, (v >>> 8).toUInt8, (v >>> 16).toUInt8, (v >>> 24).toUInt8, (v >>> 32).toUInt8,
    (v >>> 40).toUInt8, (v >>> 48).toUInt8, (v >>> 56).toUInt8]

def Op.bytes : Op → List UInt8
  | .number value => word value
  | .rows count _ _ => word count.toUInt64
  | .string (some text) true => word text.length.toUInt64 ++ text
  | _ => []

structure FingerprintState where
  stream : List UInt8
  nodes : Nat
  rows : Nat
  strings : Nat

def FingerprintState.perform (maxDepth : Nat) (s : FingerprintState) (op : Op) :
    Except Status FingerprintState :=
  match op with
  | .require holds status => if holds then .ok s else .error status
  | .node depth =>
    if maxDepth ≤ depth ∨ s.nodes = 0 then .error .capacityExceeded
    else .ok { s with nodes := s.nodes - 1 }
  | .rows count present stride =>
    if s.rows < count then .error .capacityExceeded
    else if (count ≠ 0 ∧ present = false) ∨ (2 ^ 64 - 1) / stride < count then
      .error .invalidArgument
    else .ok { s with rows := s.rows - count, stream := s.stream ++ op.bytes }
  | .string none _ => .error .invalidArgument
  -- the scan takes one byte of the budget for each byte and one for the terminator
  | .string (some text) _ =>
    if s.strings < text.length + 1 then .error .capacityExceeded
    else if text = [] then .error .invalidArgument
    else .ok { s with strings := s.strings - (text.length + 1), stream := s.stream ++ op.bytes }
  | .number _ => .ok { s with stream := s.stream ++ op.bytes }

section Projections

variable (V : Validators) (depth : Nat)

def refuse (status : Status) : List Op := [.require false status]

def flag (b : Bool) : Op := .number b.toUInt64

def generic : Option GenericDesc → List Op
  | none => refuse .invalidArgument
  | some g =>
    [.string g.stableId true, .string g.displayName false,
      .require (V.generic g) .invalidArgument, .number g.minArity, .number g.maxArity,
      .number g.category]

mutual

def identity (depth : Nat) : TypeIdentity → List Op
  | .null => refuse .typeMismatch
  | .atom id =>
    [.node depth, .number 0, .string id true, .require (V.identity (.atom id)) .invalidArgument]
  | .pointer base =>
    .node depth :: .number 1 :: identity (depth + 1) base ++
      [.require (V.identity (.pointer base)) .invalidArgument]
  | .const base =>
    .node depth :: .number 2 :: identity (depth + 1) base ++
      [.require (V.identity (.const base)) .invalidArgument]
  | .apply constructor args present =>
    .node depth :: .number 3 :: generic V constructor ++ .rows args.length present 8 ::
      identities (depth + 1) args ++
      [.require (V.identity (.apply constructor args present)) .invalidArgument]
  | .unknown form => .node depth :: .number form :: refuse .invalidArgument

def identities (depth : Nat) : List TypeIdentity → List Op
  | [] => []
  | id :: ids => identity depth id ++ identities depth ids

end

def type (depth : Nat) : TypeDesc → List Op
  | .null => refuse .invalidArgument
  | .mk name id size align kind traits pointee =>
    .require (kind ≤ 5 && traits.all (· ≤ 255)) .invalidArgument :: .node depth ::
      .string name false :: identity V (depth + 1) id ++ .number size :: .number align ::
      .number kind :: .number (traits.getD 0) :: flag (!pointee.isNull) ::
      (if pointee.isNull then [] else type (depth + 1) pointee) ++
      [.require (V.type (.mk name id size align kind traits pointee)) .invalidArgument]

def declared (d : DeclaredType) : List Op :=
  .node depth :: generic V d.constructor ++ type V (depth + 1) d.storageType ++
    .rows d.arguments.length d.present 8 :: d.arguments.flatMap (type V (depth + 1)) ++
    [.require (V.declared d) .invalidArgument,
      .require (!d.construction || V.constructible d) .invalidArgument, flag d.construction]

def field (ownerSize : UInt64) (f : FieldDesc) : List Op :=
  .require (f.offset != 2 ^ 64 - 1) .typeMismatch ::
    .require (f.align != 0 && f.offset ≤ ownerSize && f.size ≤ ownerSize - f.offset)
      .invalidArgument ::
    .string f.name true :: .number f.offset :: .number f.size :: .number f.align ::
    .require (!f.type.isNull) .typeMismatch :: type V (depth + 1) f.type ++
    .require ((f.size, f.align) == f.type.layout) .invalidArgument ::
    flag f.declaredType.isSome :: f.declaredType.elim [] (declared V (depth + 1))

def structure_ (d : StructDesc) : List Op :=
  .require (d.size != 0 && d.align != 0) .invalidArgument :: .node depth ::
    .string d.name false :: .number d.size :: .number d.align ::
    .rows d.fields.length d.present 56 :: d.fields.flatMap (field V depth d.size)

def enumItem (x : EnumItem) : List Op :=
  [.number x.bits, .string x.symbol true, .string x.text false]

def enumeration (d : EnumDomain) : List Op :=
  .require d.complete .invalidArgument :: .require (d.abiVersion == 1) .typeMismatch ::
    .node depth :: .number d.signedness :: .number d.bits :: .number d.kind ::
    .number d.declaredMask :: .rows d.items.length d.present 24 :: d.items.flatMap enumItem ++
    [.require (V.enumDomain d) .invalidArgument]

def parameter (x : ParamDesc × UInt64) : List Op :=
  .require x.1.complete .invalidArgument :: .require (x.2 != 0) .typeMismatch ::
    .string x.1.name false :: .number x.1.flags :: .number x.2 :: type V (depth + 1) x.1.type

def function : Option FunctionAbi → List Op
  | none => refuse .invalidArgument
  | some abi =>
    let f := abi.function
    .require (abi.complete && f.address != 0 && f.complete) .invalidArgument ::
      .require (abi.paramCarriers.length == f.params.length) .invalidArgument ::
      .require (abi.returnCarrier != 0) .typeMismatch :: .node depth :: .string f.name false ::
      .number abi.returnCarrier :: type V (depth + 1) f.returnType ++ .number f.effects ::
      .number f.properties :: .number f.resultFlags :: .rows f.params.length f.present 32 ::
      .require (f.params.isEmpty || abi.present) .invalidArgument ::
      (f.params.zip abi.paramCarriers).flatMap (parameter V depth) ++
      [.require (V.functionAbi abi) .invalidArgument]

/-- A turn of the loop of `interface_contract`; the method borrows its own function row. -/
def method (m : MethodDesc) : List Op :=
  .require m.complete .invalidArgument ::
    .require (m.function != 0 && m.abi.isSome) .typeMismatch :: .string m.name true ::
    .number m.dispatchArity :: .number m.flags :: function V (depth + 1) m.abi ++
    [.require (m.abi.any (·.function.address == m.function)) .invalidArgument]

def interfaceContract : Option InterfaceDesc → List Op
  | none => refuse .invalidArgument
  | some d =>
    .require d.complete .invalidArgument :: .node depth :: .string d.name false ::
      .rows d.methods.length d.present 40 :: d.methods.flatMap (method V depth) ++
      [.require (V.interface d) .invalidArgument]

def dataContractIdentity (d : DataDesc) : List Op :=
  .require (V.data d) .invalidArgument :: .node depth :: .string d.stableId true ::
    .number d.kind :: flag (!d.storageType.isNull) ::
    if d.storageType.isNull then [] else type V (depth + 1) d.storageType

def capability (c : Capability) : List Op :=
  .require (c.role == 1 || c.role == 2) .invalidArgument :: .number c.role ::
    interfaceContract V (depth + 1) c.interfaceDesc

def componentContract (d : ComponentDesc) : List Op :=
  .require d.complete .invalidArgument :: .require (d.formatVersion == 2) .typeMismatch ::
    .node depth :: .string d.stableId false :: .number d.formatVersion ::
    flag d.config.isSome :: d.config.elim [] (dataContractIdentity V (depth + 1)) ++
    .rows d.capabilities.length d.present 16 :: d.capabilities.flatMap (capability V depth) ++
    [.require (V.component d) .invalidArgument]

end Projections

inductive Descriptor where
  | type (d : TypeDesc)
  | struct (d : StructDesc)
  | enum (d : EnumDomain)
  | function (d : FunctionAbi)
  | interface (d : InterfaceDesc)
  | component (d : ComponentDesc)

namespace Descriptor

def domain : Descriptor → UInt64
  | .type _ => 1
  | .struct _ => 2
  | .enum _ => 3
  | .function _ => 4
  | .interface _ => 5
  | .component _ => 6

def project (V : Validators) : Descriptor → List Op
  | .type d => Cmeta.type V 0 d
  | .struct d => structure_ V 0 d
  | .enum d => enumeration V 0 d
  | .function d => Cmeta.function V 0 (some d)
  | .interface d => interfaceContract V 0 (some d)
  | .component d => componentContract V 0 d

end Descriptor

structure Limits where
  maxDepth : UInt64
  maxNodes : UInt64
  maxRows : UInt64
  maxStringBytes : UInt64

def contractName : List UInt8 := "cmeta.contract".toUTF8.toList

/-- What `begin` feeds to the hash: the name of the contract, the versions of the algorithm and of
the projection, and the domain. -/
def envelope (domain : UInt64) : List UInt8 :=
  word 14 ++ contractName ++ word 1 ++ word 1 ++ word domain

def fingerprintOf (stream : List UInt8) : UInt64 :=
  stream.foldl (fun h b => (h ^^^ b.toUInt64) * 1099511628211) 14695981039346656037

namespace Limits

def accepted (limits : Limits) : Bool :=
  limits.maxDepth != 0 && limits.maxDepth ≤ 64 && limits.maxNodes != 0 && limits.maxRows != 0 &&
    limits.maxStringBytes != 0

def start (limits : Limits) (domain : UInt64) : FingerprintState where
  stream := envelope domain
  nodes := limits.maxNodes.toNat
  rows := limits.maxRows.toNat
  strings := limits.maxStringBytes.toNat

end Limits

/-- A query: the failure it reports, if any, and what it leaves in the output. -/
def contractFingerprint (V : Validators) (d : Descriptor) (limits : Limits) (out : UInt64) :
    Option Status × UInt64 :=
  if !limits.accepted then (some .invalidArgument, out)
  else
    match (d.project V).foldlM (FingerprintState.perform limits.maxDepth.toNat)
        (limits.start d.domain) with
    | .error status => (some status, out)
    | .ok s => (none, fingerprintOf s.stream)

end Salts.Cmeta
