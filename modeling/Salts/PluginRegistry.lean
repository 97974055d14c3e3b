import Mathlib.Data.Finset.Card
import Salts.ThreadPool

/-!
The plugin registry (`plugin_registry.c`): slots with generations, leases, lifecycle callbacks and
the two-phase load, unload and destroy.  A move is one region under the registry lock or one call
out of it; plugin callbacks and the platform close answer what the world chooses.

An image that the platform has closed is gone: what the duplicate scan of a load reads through the
manifest of such a slot is a choice of the world too.
-/

namespace Salts.Plugin

inductive PluginStatus where
  | ok
  | invalidArgument
  | invalidManifest
  | unsupportedAbi
  | duplicatePluginId
  | duplicateExport
  | unknownExport
  | incompatibleContract
  | capacityExceeded
  | allocationFailed
  | loadFailed
  | queryMissing
  | queryRejected
  | unknownPlugin
  | stale
  | unloadFailed
  | already
  | busy
  | invalidState
  deriving DecidableEq

/-- `cmeta_plugin_lifecycle_state`. -/
inductive PluginLifecycle where
  | loaded
  | starting
  | started
  | stopping
  | quiescent
  deriving DecidableEq

structure PluginRef where
  slot : Nat
  generation : Nat
  deriving DecidableEq

structure PluginLease where
  plugin : PluginRef
  slot : Nat
  generation : Nat
  deriving DecidableEq

def PluginRef.valid (ref : PluginRef) : Bool := ref.slot != 0 && ref.generation != 0

def PluginLease.valid (lease : PluginLease) : Bool :=
  lease.plugin.valid && lease.slot != 0 && lease.generation != 0

def pluginIdMax : Nat := 255

def maxLeasesPerPlugin : Nat := 64

def boundedCstrValid (value : String) (maxBytes : Nat) : Bool :=
  maxBytes != 0 && value != "" && decide (value.utf8ByteSize ≤ maxBytes)

def pluginIdEqual (left right : String) : Bool :=
  boundedCstrValid left pluginIdMax && boundedCstrValid right pluginIdMax && left == right

/-- `cmeta_plugin_manifest`: which of its pointers are set, and what the checks of its layout and of
its exports say. -/
structure PluginManifest where
  pluginId : String
  self : Bool := false
  start : Bool := false
  requestStop : Bool := false
  isQuiescent : Bool := false
  destroy : Bool := false
  layout : PluginStatus := .ok
  exports : PluginStatus := .ok
  deriving DecidableEq

def PluginManifest.validate (m : PluginManifest) : PluginStatus :=
  if m.layout ≠ .ok then m.layout
  else if !boundedCstrValid m.pluginId pluginIdMax then .invalidManifest
  else if m.start || m.requestStop || m.isQuiescent || m.destroy then
    if m.self && m.start && m.requestStop && m.isQuiescent && m.destroy then m.exports
    else .invalidManifest
  else if m.self then .invalidManifest
  else m.exports

def nextGeneration (current : Nat) : Nat :=
  let next := (current + 1) % 2 ^ 32
  if next = 0 then 1 else next

def leaseBit (index : Nat) : BitVec 64 := 1#64 <<< index

def leaseActive (mask : BitVec 64) (index : Nat) : Bool := mask &&& leaseBit index != 0#64

/-- `cmeta_plugin_registry_slot`.  `imageOpen` is the platform's state of the image; `serial`
numbers the publications of the registry, `clears` and `turns` count the reuses of the slot and of
each of its lease slots. -/
structure PluginSlot where
  manifest : Option PluginManifest := none
  generation : Nat := 1
  state : Option PluginLifecycle := none
  failure : PluginStatus := .ok
  callbacksInflight : Nat := 0
  activeLeases : Nat := 0
  leaseActiveMask : BitVec 64 := 0#64
  leaseGenerations : Nat → Nat := fun _ => 1
  occupied : Bool := false
  unloading : Bool := false
  destroyCalled : Bool := false
  imageOpen : Bool := false
  serial : Nat := 0
  clears : Nat := 0
  turns : Nat → Nat := fun _ => 0

structure IssuedRef where
  ref : PluginRef
  index : Nat
  clears : Nat

structure GrantedLease where
  lease : PluginLease
  index : Nat
  bit : Nat
  clears : Nat
  turns : Nat

/-- `cmeta_plugin_registry_impl`.  `gone` is set when destroy has freed it; the fields behind it
record what was published, destroyed, issued and granted. -/
structure Registry where
  capacity : Nat
  slot : Nat → PluginSlot := fun _ => {}
  count : Nat := 0
  loadsInflight : Nat := 0
  destroying : Bool := false
  gone : Bool := false
  published : Nat := 0
  destroys : List Nat := []
  issued : List IssuedRef := []
  granted : List GrantedLease := []

/-- The lifecycle callbacks that are counted and leave the slot where it is. -/
inductive PluginCallback where
  | start
  | requestStop
  | isQuiescent
  deriving DecidableEq

inductive Closer where
  | unload
  | sweep
  deriving DecidableEq

inductive RegPoint where
  -- `cmeta_plugin_registry_load`
  | load (validPath : Bool)
  | loading
  | publish (m : PluginManifest)
  | loadReject (status : PluginStatus)
  | loadRelease (status : PluginStatus)
  | loaded (ref : PluginRef)
  -- the other calls
  | start (ref : PluginRef)
  | acquire (ref : PluginRef)
  | acquired (lease : PluginLease)
  | release (lease : PluginLease)
  | stop (ref : PluginRef)
  | poll (ref : PluginRef)
  | polled (quiescent : Bool)
  | unload (ref : PluginRef)
  | destroy
  | inCall (i : Nat) (k : PluginCallback)
  -- the end of a slot
  | sweep (i : Nat)
  | inDestroy (i : Nat) (c : Closer)
  | closing (i : Nat) (c : Closer)
  | clearing (i : Nat) (c : Closer)
  | closeFailed (i : Nat) (c : Closer) (status : PluginStatus)
  | returned (status : PluginStatus)
  deriving DecidableEq

/-- What the world decides at a move: the status of a callback or of the platform, the answer of an
opened image to the query, the answer of `is_quiescent`, and the slots with a closed image whose
memory happens to compare equal. -/
inductive RegChoice where
  | go
  | status (status : PluginStatus)
  | query (m : Option PluginManifest)
  | quiescent (value : Bool)
  | reads (equal : List Nat)

def RegPoint.entry : RegPoint → Bool
  | .load _ => true
  | .start _ => true
  | .acquire _ => true
  | .release _ => true
  | .stop _ => true
  | .poll _ => true
  | .unload _ => true
  | .destroy => true
  | _ => false

namespace PluginSlot

def has (slot : PluginSlot) (callback : PluginManifest → Bool) : Bool := slot.manifest.any callback

def unused (slot : PluginSlot) : Bool := slot.activeLeases == 0 && slot.callbacksInflight == 0

def removable (slot : PluginSlot) : Bool :=
  slot.state == some .loaded || slot.state == some .quiescent

/-- `clear_slot_locked` on the slot. -/
def clear (slot : PluginSlot) : PluginSlot :=
  { slot with
    manifest := none
    occupied := false
    unloading := false
    destroyCalled := false
    state := none
    failure := .ok
    callbacksInflight := 0
    activeLeases := 0
    leaseActiveMask := 0#64
    generation := nextGeneration slot.generation
    leaseGenerations := fun k => nextGeneration (slot.leaseGenerations k)
    clears := slot.clears + 1
    turns := fun k => slot.turns k + 1 }

def publish (slot : PluginSlot) (m : PluginManifest) (serial : Nat) : PluginSlot :=
  { slot with
    manifest := some m
    state := some .loaded
    failure := .ok
    occupied := true
    unloading := false
    destroyCalled := false
    callbacksInflight := 0
    activeLeases := 0
    leaseActiveMask := 0#64
    imageOpen := true
    serial := serial }

def acquire (slot : PluginSlot) (k : Nat) : PluginSlot :=
  { slot with
    leaseActiveMask := slot.leaseActiveMask ||| leaseBit k
    activeLeases := slot.activeLeases + 1 }

def release (slot : PluginSlot) (k : Nat) : PluginSlot :=
  { slot with
    leaseActiveMask := slot.leaseActiveMask &&& ~~~leaseBit k
    leaseGenerations :=
      Function.update slot.leaseGenerations k (nextGeneration (slot.leaseGenerations k))
    activeLeases := slot.activeLeases - 1
    turns := Function.update slot.turns k (slot.turns k + 1) }

def call (slot : PluginSlot) (state : Option PluginLifecycle) : PluginSlot :=
  { slot with state := state, callbacksInflight := slot.callbacksInflight + 1 }

def back (slot : PluginSlot) (state : Option PluginLifecycle) (failure : PluginStatus) :
    PluginSlot :=
  { slot with
    state := state
    failure := if slot.failure = .ok then failure else slot.failure
    callbacksInflight := slot.callbacksInflight - 1 }

def destroyed (slot : PluginSlot) : PluginSlot :=
  { slot with
    callbacksInflight := slot.callbacksInflight - 1
    destroyCalled := true
    state := some .quiescent }

def destroys (slot : PluginSlot) : Bool := !slot.destroyCalled && slot.has PluginManifest.destroy

def unload (slot : PluginSlot) : PluginSlot :=
  { slot with
    unloading := true
    callbacksInflight := slot.callbacksInflight + slot.destroys.toNat }

end PluginSlot

namespace Registry

def refOf (r : Registry) (i : Nat) : PluginRef :=
  { slot := i + 1, generation := (r.slot i).generation }

def leaseOf (r : Registry) (i k : Nat) : PluginLease :=
  { plugin := r.refOf i, slot := k + 1, generation := (r.slot i).leaseGenerations k }

def put (r : Registry) (i : Nat) (slot : PluginSlot) : Registry :=
  { r with slot := Function.update r.slot i slot }

/-- `slot_for_ref_locked`. -/
def slotForRef (r : Registry) (ref : PluginRef) : Except PluginStatus Nat :=
  if !ref.valid then .error .invalidArgument
  else if r.capacity ≤ ref.slot - 1 then .error .stale
  else if !(r.slot (ref.slot - 1)).occupied || (r.slot (ref.slot - 1)).generation != ref.generation
    then .error .stale
  else .ok (ref.slot - 1)

abbrev Move := Registry × RegPoint

def refuse (r : Registry) (status : PluginStatus) : Move := (r, .returned status)

/-- The head of start, acquire, request_stop, poll_quiescent and unload. -/
def withSlot (r : Registry) (ref : PluginRef) (body : Nat → PluginSlot → Move) : Move :=
  if r.gone then r.refuse .invalidArgument
  else match r.slotForRef ref with
    | .error status => r.refuse status
    | .ok i =>
      if r.destroying || (r.slot i).unloading then r.refuse .busy else body i (r.slot i)

/-- The first region of `cmeta_plugin_registry_load`. -/
def reserve (r : Registry) (validPath : Bool) : Move :=
  if r.gone || !validPath then r.refuse .invalidArgument
  else if r.destroying then r.refuse .busy
  else if r.capacity ≤ r.count ∨ r.capacity - r.count ≤ r.loadsInflight then
    r.refuse .capacityExceeded
  else ({ r with loadsInflight := r.loadsInflight + 1 }, .loading)

def duplicates (r : Registry) (m : PluginManifest) (equal : List Nat) (i : Nat) : Bool :=
  (r.slot i).occupied &&
    if (r.slot i).imageOpen then (r.slot i).has fun e => pluginIdEqual e.pluginId m.pluginId
    else decide (i ∈ equal)

def publishAt (r : Registry) (m : PluginManifest) (i : Nat) : Registry :=
  { r.put i ((r.slot i).publish m r.published) with
    count := r.count + 1
    loadsInflight := r.loadsInflight - 1
    published := r.published + 1
    issued := r.issued ++ [⟨r.refOf i, i, (r.slot i).clears⟩] }

def publish (r : Registry) (m : PluginManifest) (equal : List Nat) : Move :=
  if r.destroying then (r, .loadReject .busy)
  else if (List.range r.capacity).any (r.duplicates m equal) then
    (r, .loadReject .duplicatePluginId)
  else match (List.range r.capacity).find? fun i => !(r.slot i).occupied with
    | none => (r, .loadReject .capacityExceeded)
    | some i => (r.publishAt m i, .loaded (r.refOf i))

def start (r : Registry) (ref : PluginRef) : Move :=
  r.withSlot ref fun i slot =>
    if slot.state = some .started then r.refuse .already
    else if slot.state ≠ some .loaded then r.refuse .invalidState
    else if !slot.unused then r.refuse .busy
    else if slot.has PluginManifest.start then
      (r.put i (slot.call (some .starting)), .inCall i .start)
    else (r.put i { slot with state := some .started }, .returned .ok)

def acquire (r : Registry) (ref : PluginRef) : Move :=
  r.withSlot ref fun i slot =>
    if slot.state ≠ some .started then r.refuse .invalidState
    else match (List.range maxLeasesPerPlugin).find? fun k =>
        !leaseActive slot.leaseActiveMask k with
      | none => r.refuse .capacityExceeded
      | some k =>
        let lease := ⟨ref, k + 1, slot.leaseGenerations k⟩
        ({ r.put i (slot.acquire k) with
            granted := r.granted ++ [⟨lease, i, k, slot.clears, slot.turns k⟩] },
          .acquired lease)

def release (r : Registry) (lease : PluginLease) : Move :=
  if r.gone || !lease.valid then r.refuse .invalidArgument
  else match r.slotForRef lease.plugin with
    | .error status => r.refuse status
    | .ok i =>
      let k := lease.slot - 1
      if maxLeasesPerPlugin ≤ k then r.refuse .stale
      else if !leaseActive (r.slot i).leaseActiveMask k ||
          (r.slot i).leaseGenerations k != lease.generation then r.refuse .stale
      else (r.put i ((r.slot i).release k), .returned .ok)

def requestStop (r : Registry) (ref : PluginRef) : Move :=
  r.withSlot ref fun i slot =>
    if slot.state = some .stopping ∨ slot.state = some .quiescent then r.refuse .already
    else if slot.state ≠ some .started then r.refuse .invalidState
    else if slot.has PluginManifest.requestStop then
      (r.put i (slot.call (some .stopping)), .inCall i .requestStop)
    else (r.put i { slot with state := some .stopping }, .returned .ok)

def pollQuiescent (r : Registry) (ref : PluginRef) : Move :=
  r.withSlot ref fun i slot =>
    if slot.state = some .quiescent then (r, .polled true)
    else if slot.state ≠ some .stopping then r.refuse .invalidState
    else if !slot.unused then (r, .polled false)
    else if slot.has PluginManifest.isQuiescent then
      (r.put i (slot.call slot.state), .inCall i .isQuiescent)
    else (r.put i { slot with state := some .quiescent }, .polled true)

/-- The slot begins to unload; the destroy callback runs unless it has run before. -/
def beginUnload (r : Registry) (i : Nat) (c : Closer) : Move :=
  let slot := r.slot i
  if slot.destroys then
    ({ r.put i slot.unload with destroys := r.destroys ++ [slot.serial] }, .inDestroy i c)
  else (r.put i slot.unload, .closing i c)

def unload (r : Registry) (ref : PluginRef) : Move :=
  r.withSlot ref fun i slot =>
    if !slot.removable then r.refuse .busy
    else if !slot.unused then r.refuse .busy
    else r.beginUnload i .unload

def blocks (r : Registry) (i : Nat) : Bool :=
  let slot := r.slot i
  slot.occupied && (slot.unloading || !slot.unused || !slot.removable)

def destroy (r : Registry) : Move :=
  if r.gone then r.refuse .ok
  else if r.destroying || r.loadsInflight != 0 then r.refuse .busy
  else if (List.range r.capacity).any r.blocks then r.refuse .busy
  else ({ r with destroying := true }, .sweep 0)

def sweep (r : Registry) (i : Nat) : Move :=
  if r.capacity ≤ i then ({ r with gone := true }, .returned .ok)
  else if !(r.slot i).occupied then (r, .sweep (i + 1))
  else r.beginUnload i .sweep

/-- `clear_slot_locked`. -/
def clearAt (r : Registry) (i : Nat) : Registry :=
  { r.put i (r.slot i).clear with count := r.count - 1 }

def afterCall (r : Registry) (i : Nat) : PluginCallback → RegChoice → Option Move
  | .start, .status status =>
    if status = .ok then some (r.put i ((r.slot i).back (some .started) .ok), .returned .ok)
    else some (r.put i ((r.slot i).back (some .quiescent) status), .returned status)
  | .requestStop, .status status =>
    some (r.put i ((r.slot i).back (r.slot i).state status), .returned status)
  | .isQuiescent, .quiescent value =>
    some (r.put i ((r.slot i).back (if value then some .quiescent else (r.slot i).state) .ok),
      .polled value)
  | _, _ => none

def moveEntry (r : Registry) : RegPoint → RegChoice → Option Move
  | .load validPath, .go => some (r.reserve validPath)
  | .start ref, .go => some (r.start ref)
  | .acquire ref, .go => some (r.acquire ref)
  | .release lease, .go => some (r.release lease)
  | .stop ref, .go => some (r.requestStop ref)
  | .poll ref, .go => some (r.pollQuiescent ref)
  | .unload ref, .go => some (r.unload ref)
  | .destroy, .go => some r.destroy
  | _, _ => none

def moveLoad (r : Registry) : RegPoint → RegChoice → Option Move
  | .loading, .status status =>
    if status = .ok then none else some (r, .loadRelease status)
  | .loading, .query none => some (r, .loadReject .queryRejected)
  | .loading, .query (some m) =>
    some (r, if m.validate = .ok then .publish m else .loadReject m.validate)
  | .publish m, .reads equal => some (r.publish m equal)
  | .loadReject status, .status close =>
    some (r, .loadRelease (if close = .ok then status else close))
  | .loadRelease status, .go =>
    some ({ r with loadsInflight := r.loadsInflight - 1 }, .returned status)
  | _, _ => none

def moveSlot (r : Registry) : RegPoint → RegChoice → Option Move
  | .inCall i k, choice => r.afterCall i k choice
  | .sweep i, .go => some (r.sweep i)
  | .inDestroy i c, .go => some (r.put i (r.slot i).destroyed, .closing i c)
  | .closing i c, .status status =>
    if status = .ok then some (r.put i { r.slot i with imageOpen := false }, .clearing i c)
    else some (r, .closeFailed i c status)
  | .clearing i .unload, .go => some (r.clearAt i, .returned .ok)
  | .clearing i .sweep, .go => some (r.clearAt i, .sweep (i + 1))
  | .closeFailed i .unload status, .go =>
    some (r.put i { r.slot i with unloading := false }, .returned status)
  | .closeFailed i .sweep status, .go =>
    some ({ r.put i { r.slot i with unloading := false } with destroying := false },
      .returned status)
  | _, _ => none

def move (r : Registry) (p : RegPoint) (c : RegChoice) :
    Option (Registry × RegPoint × List RegPoint) :=
  ((r.moveEntry p c).or ((r.moveLoad p c).or (r.moveSlot p c))).map fun m => (m.1, m.2, [])

end Registry

end Salts.Plugin
