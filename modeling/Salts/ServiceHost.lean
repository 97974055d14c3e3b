import Salts.CFlowStep
import Salts.PluginRegistry

/-!
The service host (`service_host.c`) with the part of the configurator its teardown runs
(`configurator.c`): generations that hold plugin leases and component objects, a runtime that
publishes one of them at a time, and scopes that pin the generation they were opened on.

A move is one region under the runtime lock or the work of a drain between two of them.  A scope
belongs to the thread that uses it, so what a call does to its scope outside the lock is part of its
region; build, discard, recover and the repair of a failed generation have the bundle for
themselves.
-/

namespace Salts.ServiceHost

open Salts.Plugin (PluginRef PluginLease PluginStatus)

inductive HostStatus where
  | ok
  | invalidArgument
  | capacityExceeded
  | pluginError
  | providerError
  | configuratorError
  | busy
  | invalidState
  | resourceError
  deriving DecidableEq

inductive GenerationState where
  | zero
  | built
  | published
  | draining
  | stopping
  | failed
  | drained
  deriving DecidableEq

inductive ContextState where
  | zero
  | ready
  | resolved
  | active
  | failed
  | stopped
  deriving DecidableEq

inductive ConfiguratorStatus where
  | ok
  | invalidState
  | failed
  deriving DecidableEq

/-- A `cmeta_object_ref`: the empty one, one that passes its check, or another. -/
inductive ObjectRef where
  | empty
  | valid
  | malformed
  deriving DecidableEq

structure InterfaceDesc where
  key : Nat
  valid : Bool := true

inductive Role where
  | provides
  | requires
  deriving DecidableEq

structure ComponentDesc where
  address : Nat
  valid : Bool := true
  capabilities : List (Role × InterfaceDesc) := []
  config : Option Nat := none

structure ProviderBinding where
  component : ComponentDesc
  interfaces : Option Nat := none
  valid : Bool := true
  deactivate : Bool := false

/-- `salts_configurator_deployment`; `configData` is the descriptor with what its check says. -/
structure Deployment where
  provider : Option ProviderBinding
  configData : Option (Nat × Bool) := none
  configValue : Bool := false

structure Instance where
  object : ObjectRef := .empty
  dependencyOffset : Nat := 0
  dependencyCount : Nat := 0
  active : Bool := false

/-- What the callbacks for component `i` leave in the record of each instance: its `deactivate`, and
the `destroy` or `release` of its object. -/
structure ComponentCalls where
  deactivate : Nat → Nat → Instance → Instance := fun _ _ x => x
  destroy : Nat → Nat → Instance → Instance := fun _ _ x => x

/-- `salts_configurator_dependency`; the instance it points at is given by its index. -/
structure Dependency where
  consumerIndex : Nat
  providerIndex : Nat
  interfaceDesc : InterfaceDesc
  providerComponent : Nat
  providerInstance : Nat
  providerInterfaces : Option Nat

structure HostModule where
  plugin : PluginRef
  lease : PluginLease
  manifest : Bool := true

/-- `salts_service_host_generation_storage` with what is in the arrays: the whole of the instances,
of the others the part in use.  Behind the modules in use the table is zero. -/
structure HostStorage where
  deployments : List Deployment := []
  deploymentCapacity : Nat := 0
  instances : List Instance := []
  dependencies : List Dependency := []
  dependencyCapacity : Nat := 0
  activationOrder : List Nat := []
  activationCapacity : Nat := 0
  modules : List HostModule := []

/-- `salts_configurator_context`; `attached` says that its arrays are those of the generation, and
otherwise they are null. -/
structure Context where
  state : ContextState := .zero
  attached : Bool := false
  deploymentCount : Nat := 0
  dependencyCount : Nat := 0
  activationCount : Nat := 0
  deriving DecidableEq

structure HostFailure where
  sourceIndex : Option Nat := none
  pluginStatus : PluginStatus := .ok
  configuratorStatus : ConfiguratorStatus := .ok

/-- `salts_service_host_generation`.  `bound` says that its storage is set; the arrays stay with the
bundle when it is dropped.  `held` are the leases that the registry has granted to the generation
and that it has not taken back. -/
structure Generation where
  id : Nat := 0
  registry : Bool := false
  components : Context := {}
  storage : HostStorage := {}
  bound : Bool := false
  deploymentCount : Nat := 0
  runtimeOwner : Bool := false
  activeScopes : Nat := 0
  state : GenerationState := .zero
  failure : HostFailure := {}
  held : List PluginLease := []

/-- `service_host_deployment_valid`, and `salts_configurator_deployment_status` against ok. -/
def Deployment.isValid (d : Deployment) : Bool :=
  match d.provider with
  | none => false
  | some binding =>
    binding.valid &&
      match binding.component.config with
      | none => d.configData.isNone && !d.configValue
      | some config => d.configData.any (fun data => data.2 && data.1 == config) && d.configValue

/-- `service_host_component_has_role`, `salts_configurator_requires` and
`salts_configurator_provides`. -/
def ComponentDesc.hasRole (component : ComponentDesc) (interfaceDesc : InterfaceDesc)
    (role : Role) : Bool :=
  component.valid && interfaceDesc.valid &&
    component.capabilities.any fun c => c.1 == role && c.2.key == interfaceDesc.key

namespace HostModule

def leaseIsZero (lease : PluginLease) : Bool :=
  lease.plugin.slot == 0 && lease.plugin.generation == 0 && lease.slot == 0 &&
    lease.generation == 0

def settles (m : HostModule) : Bool :=
  !leaseIsZero m.lease && m.lease.valid && m.plugin == m.lease.plugin && m.manifest

end HostModule

namespace Generation

def provider (g : Generation) (i : Nat) : Option ProviderBinding :=
  if i < g.components.deploymentCount then (g.storage.deployments[i]?).bind Deployment.provider
  else none

/-- The first `n` instances, each with its offset of dependencies in a row. -/
def slices (g : Generation) (n : Nat) : Bool :=
  let instances := g.storage.instances.take n
  decide (instances.length = n) &&
    (List.range n).all (fun i =>
      (instances[i]?).any fun x =>
        x.dependencyOffset == ((instances.take i).map Instance.dependencyCount).sum &&
          decide (x.dependencyOffset + x.dependencyCount ≤ g.components.dependencyCount)) &&
    (instances.map Instance.dependencyCount).sum == g.components.dependencyCount

def dependenciesOf (g : Generation) (i : Nat) : List Dependency :=
  match g.storage.instances[i]? with
  | none => []
  | some x => (g.storage.dependencies.drop x.dependencyOffset).take x.dependencyCount

def dependencyBound (g : Generation) (i : Nat) (d : Dependency) : Bool :=
  d.consumerIndex == i && decide (d.providerIndex < g.components.deploymentCount) &&
    d.interfaceDesc.valid &&
    match g.provider i, g.provider d.providerIndex with
    | some consumer, some provider =>
      d.providerComponent == provider.component.address &&
        d.providerInstance == d.providerIndex && d.providerInterfaces == provider.interfaces &&
        consumer.component.hasRole d.interfaceDesc .requires &&
        provider.component.hasRole d.interfaceDesc .provides
    | _, _ => false

/-- The activation order is a permutation of the deployments, providers first. -/
def ordered (g : Generation) : Bool :=
  let order := g.storage.activationOrder.take g.components.activationCount
  decide (order.length = g.components.activationCount) &&
    order.all (fun i => decide (i < g.components.deploymentCount)) && decide order.Nodup &&
    (List.range order.length).all fun k =>
      (order[k]?).any fun i =>
        (g.dependenciesOf i).all fun d => decide (d.providerIndex ∈ order.take k)

/-- What publication and a stop check alike: the bindings, the slices of dependencies, active
objects, the tail of the instances and the activation order. -/
def planValid (g : Generation) : Bool :=
  let n := g.components.deploymentCount
  decide (n ≤ g.storage.instances.length) && decide (n ≤ g.storage.activationCapacity) &&
    decide (g.components.activationCount = n) &&
    decide (g.components.dependencyCount ≤ g.storage.dependencyCapacity) && g.slices n &&
    (List.range n).all (fun i =>
      (g.storage.deployments[i]?).any Deployment.isValid &&
        (g.storage.instances[i]?).any fun x => x.active && x.object == .valid) &&
    (g.storage.instances.drop n).all (fun x =>
      !x.active && x.object == .empty && x.dependencyOffset == 0 && x.dependencyCount == 0) &&
    (List.range n).all (fun i => (g.dependenciesOf i).all (g.dependencyBound i)) && g.ordered

def publishable (g : Generation) : Bool :=
  (g.storage.modules.isEmpty || g.registry) && g.components.state == .active &&
    g.components.deploymentCount == g.deploymentCount &&
    decide (g.components.deploymentCount ≤ g.storage.deploymentCapacity) &&
    (g.components.attached && g.bound) && g.storage.modules.all HostModule.settles && g.planValid

def instancesEmpty (g : Generation) : Bool :=
  g.storage.instances.all fun x => !x.active && x.object == .empty

def detached (c : Context) : Bool :=
  !c.attached && c.deploymentCount == 0 && c.dependencyCount == 0 && c.activationCount == 0

/-- The states in which no deployment means that the arrays are dropped. -/
def mustDetach (zero : Bool) (c : Context) : Bool :=
  (zero && c.state == .zero) ||
    ((c.state == .failed || c.state == .stopped) && c.deploymentCount == 0)

/-- The scan of `salts_configurator_instances_settled`, and with `zero` that of
`service_host_components_settled`. -/
def scanSettled (g : Generation) (zero : Bool) : Bool :=
  (!mustDetach zero g.components || detached g.components) &&
    (!g.components.attached || (decide (g.components.deploymentCount ≤ g.storage.instances.length) &&
      g.instancesEmpty)) &&
    (g.components.attached || g.components.deploymentCount == 0)

def componentsSettled (g : Generation) : Bool :=
  g.components.activationCount == 0 && g.scanSettled true

/-- `salts_configurator_context_detach_storage`. -/
def detach (g : Generation) : Generation :=
  { g with components := { state := g.components.state } }

def stopOne (calls : ComponentCalls) (g : Generation) (i : Nat) : Generation :=
  if (g.storage.instances[i]?).any Instance.active then
    let called := if (g.provider i).any ProviderBinding.deactivate then
      g.storage.instances.mapIdx (calls.deactivate i) else g.storage.instances
    let cleared := called.modify i fun x => { x with active := false, object := .empty }
    -- `cmeta_object_release` calls the lifecycle of the object behind the clear
    let released := if (called[i]?).any (·.object != .empty) then
      cleared.mapIdx (calls.destroy i) else cleared
    { g with storage := { g.storage with instances := released } }
  else g

/-- The end of `salts_configurator_context_stop`: the arrays are dropped if no record holds an
object. -/
def settleStop (g : Generation) : Generation × ConfiguratorStatus :=
  let g := { g with components := { g.components with activationCount := 0 } }
  if !g.scanSettled false then
    ({ g with components := { g.components with state := .failed } }, .invalidState)
  else ({ g with components := { state := .stopped } }, .ok)

def contextStop (g : Generation) (calls : ComponentCalls) : Generation × ConfiguratorStatus :=
  if g.components.state != .active || !g.planValid then (g, .invalidState)
  else
    let order := g.storage.activationOrder.take g.components.activationCount
    (order.reverse.foldl (stopOne calls) g).settleStop

/-- The records behind the release of module `i`: the last one takes its place. -/
def removeModule (modules : List HostModule) (i : Nat) : List HostModule :=
  match modules.getLast? with
  | none => modules
  | some last => (modules.set i last).dropLast

def firstFault (first status : PluginStatus) : PluginStatus := if first = .ok then status else first

/-- One turn of the loop of `release_modules`. -/
def releaseOne (release : PluginLease → PluginStatus) (r : Generation × PluginStatus) (i : Nat) :
    Generation × PluginStatus :=
  match r.1.storage.modules[i]? with
  | none => r
  | some m =>
    if !m.settles then (r.1, firstFault r.2 .invalidArgument)
    else if release m.lease ≠ .ok then (r.1, firstFault r.2 (release m.lease))
    else
      ({ r.1 with
          storage := { r.1.storage with modules := removeModule r.1.storage.modules i }
          held := r.1.held.erase m.lease }, r.2)

def releaseFrom (release : PluginLease → PluginStatus) :
    Nat → Generation × PluginStatus → Generation × PluginStatus
  | 0, r => r
  | scan + 1, r => releaseFrom release scan (releaseOne release r scan)

/-- `release_modules`; `release` is what the registry answers to each lease. -/
def releaseModules (g : Generation) (release : PluginLease → PluginStatus) :
    Generation × PluginStatus :=
  releaseFrom release g.storage.modules.length (g, .ok)

def clear (g : Generation) : Generation :=
  { g with
    registry := false
    deploymentCount := 0
    storage := { g.storage with modules := [] }
    bound := false
    components := {} }

def isClear (g : Generation) : Bool :=
  !g.registry && g.deploymentCount == 0 && g.storage.modules.isEmpty && !g.runtimeOwner &&
    g.activeScopes == 0 && !g.bound && g.components == {}

def buildable (g : Generation) : Bool :=
  match g.state with
  | .zero => g.isClear
  | .drained => g.isClear
  | .failed =>
    !g.runtimeOwner && g.activeScopes == 0 && g.storage.modules.isEmpty &&
      g.components.activationCount == 0 &&
      (g.components.state == .zero || g.components.state == .failed ||
        g.components.state == .stopped) && g.componentsSettled
  | _ => false

end Generation

/-- What a build is called with: the storage with what its callbacks and the registry put into it,
the leases that were granted and the records of the instances. -/
structure BuildArgs where
  id : Nat
  registry : Bool
  storage : HostStorage

inductive BuildOutcome where
  -- refused for its capacities
  | refused (status : HostStatus)
  -- a source is refused before anything is touched
  | preflight (source : Nat)
  -- a source is not admitted
  | admission (status : HostStatus) (failure : HostFailure)
  -- init or resolve of the graph fails
  | graph
  -- start fails and is rolled back
  | start
  | built

namespace Generation

def fresh (g : Generation) (args : BuildArgs) : Generation :=
  { g with
    components := {}
    id := args.id
    registry := args.registry
    storage := args.storage
    bound := true
    deploymentCount := args.storage.deployments.length
    runtimeOwner := false
    activeScopes := 0
    failure := {}
    state := .zero
    held := args.storage.modules.map HostModule.lease }

/-- Before a start the records of the instances hold nothing of the generation. -/
def resetInstances (g : Generation) : Generation :=
  { g with storage := { g.storage with instances := g.storage.instances.map fun _ => {} } }

def graph (storage : HostStorage) (state : ContextState) (activationCount : Nat) : Context :=
  { state := state
    attached := true
    deploymentCount := storage.deployments.length
    dependencyCount := storage.dependencies.length
    activationCount := activationCount }

def graphFails (g : Generation) (release : PluginLease → PluginStatus) : Generation × HostStatus :=
  let g := { g with
    failure := { g.failure with configuratorStatus := .failed }
    state := .failed }
  if !g.componentsSettled then (g, .configuratorError)
  else
    let r := g.releaseModules release
    if r.2 ≠ .ok then
      ({ r.1 with failure := { r.1.failure with sourceIndex := none, pluginStatus := r.2 } },
        .configuratorError)
    else if r.1.componentsSettled then (r.1.clear, .configuratorError)
    else (r.1, .configuratorError)

def admissionFails (g : Generation) (release : PluginLease → PluginStatus) (status : HostStatus) :
    Generation × HostStatus :=
  let r := g.releaseModules release
  if r.2 ≠ .ok then
    ({ r.1 with failure := { r.1.failure with sourceIndex := none, pluginStatus := r.2 } },
      .pluginError)
  else (r.1.clear, status)

def build (g : Generation) (args : BuildArgs) (release : PluginLease → PluginStatus)
    (outcome : BuildOutcome) : Generation × HostStatus :=
  if args.id = 0 ∨ (args.storage.modules ≠ [] ∧ args.registry = false) then (g, .invalidArgument)
  else if !g.buildable then (g, .invalidState)
  else match outcome with
    | .refused status => (g, status)
    | .preflight source =>
      ({ g with failure := { sourceIndex := some source }, state := .failed }, .providerError)
    | .admission status failure =>
      ({ (g.fresh args).resetInstances with failure := failure, state := .failed }).admissionFails
        release status
    | .graph =>
      ({ (g.fresh args).resetInstances with components := { state := .failed } }).graphFails
        release
    | .start =>
      let failed := { g.fresh args with components := graph args.storage .failed 0 }
      (if failed.scanSettled false then failed.detach else failed).graphFails release
    | .built =>
      ({ g.fresh args with
          components := graph args.storage .active args.storage.deployments.length
          state := .built }, .ok)

def discard (g : Generation) (calls : ComponentCalls) (release : PluginLease → PluginStatus) :
    Generation × HostStatus :=
  if g.state ≠ .built then (g, .invalidState)
  else
    let stopped := g.contextStop calls
    if stopped.2 ≠ .ok then
      ({ stopped.1 with
          failure := { stopped.1.failure with configuratorStatus := .invalidState }
          state := .failed }, .configuratorError)
    else
      let r := stopped.1.releaseModules release
      if r.2 ≠ .ok then
        ({ r.1 with
            failure := { r.1.failure with sourceIndex := none, pluginStatus := r.2 }
            state := .failed }, .pluginError)
      else ({ r.1.clear with state := .drained }, .ok)

def recover (g : Generation) (release : PluginLease → PluginStatus) : Generation × HostStatus :=
  if g.state ≠ .failed ∨ g.runtimeOwner = true ∨ g.activeScopes ≠ 0 then (g, .invalidState)
  else if (g.components.state != .zero && g.components.state != .failed &&
      g.components.state != .stopped) || g.components.activationCount != 0 ||
      !g.componentsSettled then (g, .invalidState)
  else
    let r := g.releaseModules release
    if r.2 ≠ .ok then
      ({ r.1 with failure := { r.1.failure with sourceIndex := none, pluginStatus := r.2 } },
        .pluginError)
    else ({ r.1.clear with runtimeOwner := false, activeScopes := 0, state := .drained }, .ok)

/-- The owner of a failed generation settles an object and clears its record. -/
def repair (g : Generation) (i : Nat) : Generation :=
  if g.state = .failed then
    let instances := g.storage.instances.modify i fun x =>
      { x with active := false, object := .empty }
    { g with storage := { g.storage with instances := instances } }
  else g

end Generation

structure Scope where
  generation : Nat := 0
  generationId : Nat := 0
  ownerAddress : Nat := 0
  live : Bool := false

def maxAttachedGenerations : Nat := 2

/-- `salts_service_host_runtime`, with the bundles and the scopes of its callers; `publications` are
the ids it has published. -/
structure Host where
  bundles : Nat
  gen : Nat → Generation := fun _ => {}
  scopes : Nat
  scope : Nat → Scope := fun _ => {}
  current : Option Nat := none
  lastGenerationId : Nat := 0
  activeScopes : Nat := 0
  attachedGenerations : Nat := 0
  publications : List Nat := []

inductive HostPoint where
  | publish (g : Nat)
  | close
  | acquire (c : Nat)
  | release (c : Nat)
  | drain (g : Nat)
  -- the owner of a bundle
  | build (g : Nat)
  | discard (g : Nat)
  | recover (g : Nat)
  | repair (g i : Nat)
  -- a drain behind its first region
  | stopping (g : Nat)
  | releasing (g : Nat)
  | clearing (g : Nat)
  | failing (g : Nat) (status : HostStatus)
  | published (previous : Option Nat)
  | closed (previous : Nat)
  | returned (status : HostStatus)
  deriving DecidableEq

/-- What the world decides at a move: what the providers and the registry do, and how a build comes
out. -/
inductive HostChoice where
  | go
  | world (calls : ComponentCalls) (release : PluginLease → PluginStatus)
  | build (args : BuildArgs) (release : PluginLease → PluginStatus) (outcome : BuildOutcome)

def HostPoint.entry : HostPoint → Bool
  | .publish _ => true
  | .close => true
  | .acquire _ => true
  | .release _ => true
  | .drain _ => true
  | .build _ => true
  | .discard _ => true
  | .recover _ => true
  | .repair _ _ => true
  | _ => false

namespace Host

abbrev Move := Host × HostPoint

def put (h : Host) (g : Nat) (x : Generation) : Host := { h with gen := Function.update h.gen g x }

def refuse (h : Host) (status : HostStatus) : Move := (h, .returned status)

def withdraw (h : Host) (g : Nat) : Host := h.put g { h.gen g with state := .draining }

def attach (h : Host) (g : Nat) : Host :=
  let x := h.gen g
  { h.put g { x with runtimeOwner := true, state := .published } with
    attachedGenerations := h.attachedGenerations + 1
    current := some g
    lastGenerationId := x.id
    publications := h.publications ++ [x.id] }

def publish (h : Host) (g : Nat) : Move :=
  let x := h.gen g
  if h.bundles ≤ g then h.refuse .invalidArgument
  else if x.state ≠ .built ∨ x.publishable = false ∨ x.runtimeOwner = true ∨ x.activeScopes ≠ 0 ∨
      x.id ≤ h.lastGenerationId then h.refuse .invalidState
  else if maxAttachedGenerations ≤ h.attachedGenerations then h.refuse .busy
  else match h.current with
    | none => (h.attach g, .published none)
    | some p =>
      if (h.gen p).state ≠ .published then h.refuse .invalidState
      else ((h.attach g).withdraw p, .published (some p))

def close (h : Host) : Move :=
  match h.current with
  | none => h.refuse .invalidState
  | some p =>
    if (h.gen p).state ≠ .published then h.refuse .invalidState
    else ({ h.withdraw p with current := none }, .closed p)

def acquire (h : Host) (c : Nat) : Move :=
  if h.scopes ≤ c then h.refuse .invalidArgument
  else if (h.scope c).live then h.refuse .invalidState
  else match h.current with
    | none => h.refuse .invalidState
    | some g =>
      let x := h.gen g
      if x.state ≠ .published then h.refuse .invalidState
      else if x.activeScopes = sizeMax ∨ h.activeScopes = sizeMax then h.refuse .capacityExceeded
      else
        ({ h.put g { x with activeScopes := x.activeScopes + 1 } with
            activeScopes := h.activeScopes + 1
            scope := Function.update h.scope c ⟨g, x.id, c, true⟩ }, .returned .ok)

def release (h : Host) (c : Nat) : Move :=
  let scope := h.scope c
  if h.scopes ≤ c ∨ scope.live = false then h.refuse .invalidArgument
  else if scope.ownerAddress ≠ c then h.refuse .invalidState
  else
    let x := h.gen scope.generation
    if x.runtimeOwner = false ∨ x.id ≠ scope.generationId ∨ x.activeScopes = 0 ∨
        h.activeScopes = 0 then h.refuse .invalidState
    else
      ({ h.put scope.generation { x with activeScopes := x.activeScopes - 1 } with
          activeScopes := h.activeScopes - 1
          scope := Function.update h.scope c {} }, .returned .ok)

/-- The generation may be drained: it is draining, or a drain of it has failed before. -/
def drainable (x : Generation) : Bool :=
  x.state == .draining ||
    x.state == .failed && (x.components.state == .failed || x.components.state == .stopped)

def drain (h : Host) (g : Nat) : Move :=
  let x := h.gen g
  if h.bundles ≤ g then h.refuse .invalidArgument
  else if x.runtimeOwner = false ∨ h.attachedGenerations = 0 ∨ drainable x = false then
    h.refuse .invalidState
  else if x.activeScopes ≠ 0 then h.refuse .busy
  else if (x.state = .draining ∧ x.publishable = false) ∨
      (x.state = .failed ∧ x.componentsSettled = false) then h.refuse .configuratorError
  else (h.put g { x with state := .stopping }, .stopping g)

def stop (h : Host) (g : Nat) (calls : ComponentCalls) : Move :=
  let x := h.gen g
  let r := if x.components.state = .active then x.contextStop calls else (x, .ok)
  let status := if r.2 = .ok ∧ r.1.componentsSettled = false then .invalidState else r.2
  if status ≠ .ok then
    (h.put g { r.1 with failure := { r.1.failure with configuratorStatus := status } },
      .failing g .configuratorError)
  else (h.put g r.1, .releasing g)

def releaseLeases (h : Host) (g : Nat) (answer : PluginLease → PluginStatus) : Move :=
  let r := (h.gen g).releaseModules answer
  if r.2 ≠ .ok then
    (h.put g { r.1 with failure := { r.1.failure with pluginStatus := r.2 } },
      .failing g .pluginError)
  else (h.put g r.1, .clearing g)

def finish (h : Host) (g : Nat) : Move :=
  ({ h.put g { (h.gen g).clear with state := .drained, runtimeOwner := false } with
      attachedGenerations := h.attachedGenerations - 1 }, .returned .ok)

def moveEntry (h : Host) : HostPoint → HostChoice → Option Move
  | .publish g, .go => some (h.publish g)
  | .close, .go => some h.close
  | .acquire c, .go => some (h.acquire c)
  | .release c, .go => some (h.release c)
  | .drain g, .go => some (h.drain g)
  | _, _ => none

def moveOwner (h : Host) : HostPoint → HostChoice → Option Move
  | .build g, .build args answer outcome =>
    let r := (h.gen g).build args answer outcome
    some (h.put g r.1, .returned r.2)
  | .discard g, .world calls answer =>
    let r := (h.gen g).discard calls answer
    some (h.put g r.1, .returned r.2)
  | .recover g, .world _ answer =>
    let r := (h.gen g).recover answer
    some (h.put g r.1, .returned r.2)
  | .repair g i, .go => some (h.put g ((h.gen g).repair i), .returned .ok)
  | _, _ => none

def moveDrain (h : Host) : HostPoint → HostChoice → Option Move
  | .stopping g, .world calls _ => some (h.stop g calls)
  | .releasing g, .world _ answer => some (h.releaseLeases g answer)
  | .clearing g, .go => some (h.finish g)
  | .failing g status, .go =>
    some (h.put g { h.gen g with state := .failed }, .returned status)
  | _, _ => none

def move (h : Host) (p : HostPoint) (c : HostChoice) : Option (Host × HostPoint × List HostPoint) :=
  ((h.moveEntry p c).or ((h.moveOwner p c).or (h.moveDrain p c))).map fun m => (m.1, m.2, [])

end Host

end Salts.ServiceHost
