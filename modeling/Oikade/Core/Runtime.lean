/-
  The core runtime (`oikade-core/src/runtime.rs`, `runtime/subscription.rs`) as a machine whose steps
  are the stretches of code between two await points.

  A call is a future. Between two await points it runs alone, so a `Pc` stands for the await point
  at which the call is suspended, with the local variables that are live there. `body` is the code
  from that await point to the next one. The state mutex is never held across an await point, so a
  section under it is part of one step. The other locks are held across await points; a lock is held
  by a call as long as its guard is alive in the call's future, so which locks are held can be read
  off the `Pc` (`Pc.holds`), and dropping a future at an await point drops its guards. Waiting
  queues are not modelled: any waiting call may be next, so every order the real locks can produce is
  a run here.

  What the environment decides is fixed when a call starts (`Call`): what the store answers to the
  call's one `load_device` and one `save_device`, what the command handler answers, and the clock. A
  save is handed to a blocking task; if its caller is dropped meanwhile the save still completes
  (`orphans`). A failed save leaves the store unchanged.

  `history` records what happened in the whole run; no step reads it.

  The counters are natural numbers: the source's are `u64` with overflow checks on, so they never
  wrap.
-/
import Oikade.Core.Model
import Oikade.Lib.Broadcast
import Oikade.Lib.Machine

namespace Oikade.Core

open Broadcast (Hub Entry)

abbrev CallId := Nat
/-- The identity of an `Arc<RegisteredDevice>`, which `Arc::ptr_eq` compares. -/
abbrev Ref := Nat
/-- The values of a device by capability. -/
abbrev Record := Std.ExtTreeMap CapabilityId Value

def maxSubscriptionBuffer : Nat := 4096

/-- Why a device could not be restored. -/
inductive RestoreCause where
  | store (message : String)
  | value (reason : InvalidReason)
  deriving DecidableEq, Repr

inductive RuntimeError where
  | stopped
  | alreadyStarted
  | alreadyExists (device : String)
  | notFound (what : String)
  | notReadable (what : String)
  | notWritable (what : String)
  | invalidValue (reason : InvalidReason)
  | slowConsumer
  | invalidSubscriptionBuffer
  | missingCommandHandler (what : String)
  | restore (device : String) (cause : RestoreCause)
  | persist (device capability message : String)
  | command (device capability message : String)
  deriving DecidableEq, Repr

structure Command where
  deviceId : DeviceId
  capabilityId : CapabilityId
  value : Value
  deriving DecidableEq

structure Event where
  deviceId : DeviceId
  capabilityId : CapabilityId
  value : Value
  revision : Nat
  occurredAt : Nat
  deriving DecidableEq

structure TopologyEvent where
  revision : Nat
  deriving DecidableEq

structure DeviceValues where
  current : Record
  persisted : Record

/-- What an `Arc<RegisteredDevice>` points to, without the contents of its mutexes. -/
structure RegisteredDevice where
  ref : Ref
  definition : Device
  capabilities : Std.ExtTreeMap CapabilityId Capability
  handler : Bool
  deriving DecidableEq

/-- The two kinds of subscription. -/
inductive Topic where
  | states
  | topology
  deriving DecidableEq, Repr

structure RuntimeState where
  started : Bool
  devices : Std.ExtTreeMap DeviceId RegisteredDevice
  subscriptions : Hub Event RuntimeError
  topologySubscriptions : Hub TopologyEvent RuntimeError
  revision : Nat

/-- The receiver of a subscription is gone. -/
def RuntimeState.dropped (s : RuntimeState) (topic : Topic) (id : Nat) : Bool :=
  match topic with
  | .states => (s.subscriptions.chan id).dropped
  | .topology => (s.topologySubscriptions.chan id).dropped

/-- Everything the calls share: the state, the device values behind each `values` mutex, and the
    store's records. `persistent` says whether a store is configured. -/
structure Shared where
  persistent : Bool
  state : RuntimeState
  values : Ref → DeviceValues
  nextRef : Ref
  store : DeviceId → Option Record

structure DeviceState where
  device : Device
  values : Record
  deriving DecidableEq

structure Snapshot where
  started : Bool
  revision : Nat
  devices : List DeviceState
  subscriptions : Nat
  deriving DecidableEq

inductive Op where
  | start
  | stop
  | register (device : Device) (handler : Bool)
  | unregister (device : DeviceId)
  | read (device : DeviceId) (capability : CapabilityId)
  | writeValue (command : Command)
  | publish (device : DeviceId) (capability : CapabilityId) (value : Value)
  | subscribe (buffer : Nat)
  | subscribeTopology (buffer : Nat)
  | snapshot
  | cancel (topic : Topic) (id : Nat)

/-- A call with what the environment will answer to it. -/
structure Call where
  op : Op
  loaded : Except String Unit := .ok ()
  handled : Except String Value := .error ""
  saved : Except String Unit := .ok ()
  now : Nat := 0

inductive Reply where
  | done
  | value (value : Value)
  | subscription (id : Nat)
  | snapshot (snapshot : Snapshot)
  deriving DecidableEq

abbrev Outcome := Except RuntimeError Reply

/-- The await point at which a call is suspended. -/
inductive Pc where
  /-- `lifecycle.read()` or `lifecycle.write()` -/
  | lifecycle
  /-- the first `state.lock()` under the lifecycle lock -/
  | enter
  /-- `read`: `registered.values.lock()` -/
  | readValues (r : RegisteredDevice)
  /-- `write_value`, `publish`: `registered.command_serial.lock()` -/
  | commandSerial (r : RegisteredDevice) (c : Capability)
  /-- `confirm_registration` after the command serial -/
  | confirm (r : RegisteredDevice) (c : Capability)
  /-- `handler.handle_command(..)` -/
  | handling (r : RegisteredDevice) (c : Capability)
  /-- `commit`: `registered.values.lock()` -/
  | commit (r : RegisteredDevice) (c : Capability) (v : Value)
  /-- `commit`: `store.save_device(..)` -/
  | saving (r : RegisteredDevice) (c : Capability) (v : Value) (next : Record)
  /-- `commit`: `confirm_registration` after the save -/
  | confirmSaved (r : RegisteredDevice) (c : Capability) (v : Value) (next : Record)
  /-- `commit`: `state.lock()` for the revision -/
  | advance (r : RegisteredDevice) (c : Capability) (v : Value)
  /-- `register`: `store.load_device(..)` -/
  | loading
  /-- `register`: `store.save_device(..)` -/
  | savingInitial (values : DeviceValues)
  /-- `register`: the second `state.lock()` -/
  | insert (values : DeviceValues)
  /-- `unregister`: `registered.command_serial.lock()` -/
  | unregisterSerial (r : RegisteredDevice)
  /-- `unregister`: the second `state.lock()` -/
  | remove (r : RegisteredDevice)
  /-- `snapshot`: `state.lock()` -/
  | snapshotState
  /-- `snapshot`: `registered.values.lock()` of the first device in `todo` -/
  | snapshotValues (s : Snapshot) (r : RegisteredDevice) (todo : List RegisteredDevice)
  /-- `Subscription::cancel`: `state.lock()` -/
  | cancelState

inductive Lock where
  | lifecycleRead
  | lifecycleWrite
  | commandSerial (r : Ref)
  | values (r : Ref)
  deriving DecidableEq, Repr

/-- `l` cannot be taken while `l'` is held. -/
def Lock.excludes : Lock → Lock → Bool
  | .lifecycleRead, .lifecycleWrite => true
  | .lifecycleWrite, .lifecycleRead => true
  | .lifecycleWrite, .lifecycleWrite => true
  | .commandSerial r, .commandSerial r' => r = r'
  | .values r, .values r' => r = r'
  | _, _ => false

/-- The lifecycle guard that an operation takes; `snapshot` and `cancel` take none. -/
def Op.lifecycle : Op → Option Lock
  | .start | .stop | .register .. | .unregister .. => some .lifecycleWrite
  | .read .. | .writeValue .. | .publish .. | .subscribe .. | .subscribeTopology .. =>
    some .lifecycleRead
  | .snapshot | .cancel .. => none

/-- The guards alive at an await point. -/
def Pc.holds (op : Op) : Pc → List Lock
  | .lifecycle | .snapshotState | .snapshotValues .. | .cancelState => []
  | .enter | .readValues _ | .commandSerial .. | .loading | .savingInitial _ | .insert _
  | .unregisterSerial _ => op.lifecycle.toList
  | .confirm r _ | .handling r _ | .commit r _ _ | .remove r =>
    op.lifecycle.toList ++ [.commandSerial r.ref]
  | .saving r .. | .confirmSaved r .. | .advance r .. =>
    op.lifecycle.toList ++ [.commandSerial r.ref, .values r.ref]

/-- The lock, other than the state mutex, that a call waits for at an await point. -/
def Pc.needs (op : Op) : Pc → Option Lock
  | .lifecycle => op.lifecycle
  | .readValues r | .commit r _ _ | .snapshotValues _ r _ => some (.values r.ref)
  | .commandSerial r _ | .unregisterSerial r => some (.commandSerial r.ref)
  | _ => none

/-- What a step does to the shared data. -/
inductive Effect where
  | none
  | start
  | stop
  | save (device : DeviceId) (record : Record)
  | update (ref : Ref) (values : DeviceValues)
  | commit (d : DeviceId) (r : RegisteredDevice) (c : Capability) (v : Value) (now : Nat)
  | insert (r : RegisteredDevice) (values : DeviceValues)
  | remove (d : DeviceId) (r : RegisteredDevice)
  | subscribe (topic : Topic) (buffer : Nat)
  | cancel (topic : Topic) (id : Nat)

inductive Next where
  | goto (pc : Pc)
  | ret (reply : Reply)

/-! ## The functions of the source -/

def ensureStarted (s : RuntimeState) : Except RuntimeError Unit :=
  if s.started then .ok () else .error .stopped

def slashed (d : DeviceId) (c : CapabilityId) : String := d.asStr ++ "/" ++ c.asStr

def deviceNotFound (d : DeviceId) : RuntimeError := .notFound ("device " ++ d.asStr)

def capabilityNotFound (d : DeviceId) (c : CapabilityId) : RuntimeError :=
  .notFound ("capability " ++ slashed d c)

def lookup (s : RuntimeState) (d : DeviceId) (c : CapabilityId) :
    Except RuntimeError (RegisteredDevice × Capability) := do
  ensureStarted s
  match s.devices[d]? with
  | none => .error (deviceNotFound d)
  | some r =>
    match r.capabilities[c]? with
    | none => .error (capabilityNotFound d c)
    | some capability => .ok (r, capability)

def confirmRegistration (s : RuntimeState) (d : DeviceId) (r : RegisteredDevice) :
    Except RuntimeError Unit := do
  ensureStarted s
  if (s.devices[d]?).any (·.ref = r.ref) then .ok () else .error (deviceNotFound d)

/-- The checks of `register` before its first await point. -/
def missingHandler (d : Device) (handler : Bool) : Option RuntimeError :=
  (d.capabilities.find? fun c => c.permissions.write && !handler).map fun c =>
    .missingCommandHandler (slashed d.id c.id)

structure Restored where
  current : Record
  persisted : Record
  dirty : Bool

/-- The loop of `register` over the declared capabilities: a stored value wins over the initial
    one, and a capability without a stored value makes the record dirty. -/
def restoreValues : Restored → List Capability → Except InvalidReason Restored
  | acc, [] => .ok acc
  | acc, c :: cs =>
    match acc.persisted[c.id]? with
    | some value => do
      validateCapabilityValue c value
      restoreValues { acc with current := acc.current.insert c.id value } cs
    | none => do
      validateCapabilityValue c c.initialValue
      restoreValues
        { current := acc.current.insert c.id c.initialValue
          persisted := acc.persisted.insert c.id c.initialValue
          dirty := true } cs

def capabilityMap (cs : List Capability) : Std.ExtTreeMap CapabilityId Capability :=
  cs.foldl (fun m c => m.insert c.id c) ∅

/-- `register` after the store answered `loaded`. -/
def registerLoaded (sh : Shared) (d : Device) (loaded : Option Record) :
    Except RuntimeError (Effect × Next) :=
  match restoreValues ⟨∅, loaded.getD ∅, loaded.isNone⟩ d.capabilities with
  | .error reason => .error (.restore d.id.asStr (.value reason))
  | .ok restored =>
    let values : DeviceValues := ⟨restored.current, restored.persisted⟩
    .ok (.none, .goto (if restored.dirty && sh.persistent then .savingInitial values
      else .insert values))

/-- The section of `read`, `write_value` and `publish` from `lookup` to the next await point. -/
def enterRead (sh : Shared) (d : DeviceId) (c : CapabilityId) :
    Except RuntimeError (Effect × Next) := do
  let (r, capability) ← lookup sh.state d c
  if capability.permissions.read then .ok (.none, .goto (.readValues r))
  else .error (.notReadable (slashed d c))

def enterWriteValue (sh : Shared) (command : Command) : Except RuntimeError (Effect × Next) := do
  let (r, capability) ← lookup sh.state command.deviceId command.capabilityId
  if capability.permissions.write then
    match validateCapabilityValue capability command.value with
    | .error reason => .error (.invalidValue reason)
    | .ok () => .ok (.none, .goto (.commandSerial r capability))
  else .error (.notWritable (slashed command.deviceId command.capabilityId))

def enterPublish (sh : Shared) (d : DeviceId) (c : CapabilityId) (value : Value) :
    Except RuntimeError (Effect × Next) := do
  let (r, capability) ← lookup sh.state d c
  match validateCapabilityValue capability value with
  | .error reason => .error (.invalidValue reason)
  | .ok () => .ok (.none, .goto (.commandSerial r capability))

def enterRegister (sh : Shared) (d : Device) : Except RuntimeError (Effect × Next) := do
  ensureStarted sh.state
  if d.id ∈ sh.state.devices then .error (.alreadyExists d.id.asStr)
  else if sh.persistent then .ok (.none, .goto .loading)
  else registerLoaded sh d none

def enterUnregister (sh : Shared) (d : DeviceId) : Except RuntimeError (Effect × Next) := do
  ensureStarted sh.state
  match sh.state.devices[d]? with
  | none => .error (deviceNotFound d)
  | some r => .ok (.none, .goto (.unregisterSerial r))

/-- The next device of a snapshot, or its return. -/
def snapshotNext (s : Snapshot) : List RegisteredDevice → Next
  | [] => .ret (.snapshot s)
  | r :: todo => .goto (.snapshotValues s r todo)

/-- The reply of `write_value` or `publish` when the effective value is `v`. -/
def Op.committed (op : Op) (v : Value) : Reply :=
  match op with
  | .writeValue _ => .value v
  | _ => .done

/-- The device and capability that a command or a publication is about. -/
def Op.target : Op → Option (DeviceId × CapabilityId)
  | .writeValue command => some (command.deviceId, command.capabilityId)
  | .publish d c _ => some (d, c)
  | _ => none

end Oikade.Core
