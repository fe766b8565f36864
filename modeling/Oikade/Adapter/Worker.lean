/-
  The worker of an adapter instance (`oikade-adapter-host/src/instance/worker.rs` and `wait_ready`
  of `instance.rs`), over the runtime machine of the core and an adapter that is a replica.

  `wait_ready` subscribes to the states and to the topology, synchronizes and asks for the health;
  then `monitor` reads its two subscriptions in any order. The worker's calls of the core are calls
  of the runtime machine: they run in the worker's own task, so what it does with the result belongs
  to the step in which the call returns. Everybody else's steps of the core are `Action.core`, which
  leaves alone what only the worker has: its subscriptions and its call. A request to the adapter is
  written (`Exchange.sent`), handled by the adapter, which answers as it likes
  (`Exchange.replied`), and the answer taken; the session may fail at any time.

  The lock of `RunState` is held across no await point and nobody else writes what the worker reads,
  so a section under it is part of the step around it. What `status` and the operations of the admin
  API do with a run, and the transitions of `active`, are left out: they read.
-/
import Oikade.Core.Snapshot
import Oikade.Adapter.Validate

namespace Oikade.Adapter

open Oikade.Core (CallId Call Event TopologyEvent Topic)

/-! ## Frames and the state of a run -/

structure SyncResponse where
  generation : Nat
  devices : Nat
  projections : Option (List Projection)
  diagnostics : List Diagnostic

structure HealthResponse where
  healthy : Bool
  detail : String
  resources : List Resource

inductive Request where
  | sync (request : SyncRequest)
  | event (request : EventRequest)
  | health

/-- What a call of the session returns. -/
inductive Reply where
  | sync (response : SyncResponse)
  | event
  | health (response : HealthResponse)
  /-- an error of the adapter, or a body that does not decode -/
  | error

structure RunState where
  generation : Nat
  snapshotRevision : Nat
  known : ProjectionKeys
  snapshot : ProjectionKeys
  diagnostics : List Diagnostic
  resources : List Resource
  healthy : Bool
  healthDetail : String

/-- The state that `wait_ready` starts with. -/
def RunState.new : RunState := ⟨0, 0, ∅, ∅, [], [], false, ""⟩

/-! ## The adapter -/

/-- An adapter as a replica of the core: its devices and a value for each capability. -/
structure Replica where
  devices : List Device
  value : String → String → Option Value

def Replica.empty : Replica := ⟨[], fun _ _ => none⟩

/-- The value of a capability in a sync request. -/
def SyncRequest.value (request : SyncRequest) (device capability : String) : Option Value :=
  (request.devices.find? fun state => state.device.id = device).bind fun state =>
    (state.values.find? fun entry => entry.capabilityId = capability).map (·.value)

/-- A sync request replaces everything, an event request one value. -/
def Replica.apply (replica : Replica) : Request → Replica
  | .sync request => ⟨request.devices.map (·.device), request.value⟩
  | .event request => { replica with
      value := fun device capability =>
        if device = request.deviceId ∧ capability = request.capabilityId then some request.value
        else replica.value device capability }
  | .health => replica

/-- The request that is under way, if any. -/
inductive Exchange where
  | idle
  | sent (request : Request)
  | replied (reply : Reply)

/-! ## The worker -/

/-- Who calls `synchronize` and `refresh_health`. -/
inductive Caller where
  | waitReady
  | monitor
  deriving DecidableEq, Repr

/-- The calls that the worker makes of the core. -/
inductive Purpose where
  | subscribe
  | subscribeTopology
  /-- `synchronize`, with the generation it read -/
  | snapshot (caller : Caller) (generation : Nat)
  | cancelStates
  | cancelTopology

/-- The requests that the worker waits for. -/
inductive Waiting where
  | sync (caller : Caller) (request : SyncRequest)
  | event
  | health (caller : Caller)

/-- Where the worker is. -/
inductive Stage where
  /-- before a call of the core -/
  | before (purpose : Purpose)
  /-- in a call of the core -/
  | during (purpose : Purpose) (k : CallId)
  /-- in `session.call` -/
  | requesting (waiting : Waiting)
  /-- `monitor` between two iterations -/
  | monitor
  /-- `deactivate` after the loop -/
  | deactivate
  | closed

structure World where
  core : Core.Sys
  /-- `spec.event_buffer` -/
  eventBuffer : Nat
  stage : Stage
  states : Option Nat
  topology : Option Nat
  run : RunState
  failed : Bool
  exchange : Exchange
  replica : Replica

inductive Action where
  /-- a step of the core that is not the worker's -/
  | core (a : Core.Action)
  /-- the worker makes its next call of the core -/
  | call (k : CallId)
  /-- the worker's call of the core runs to its next await point -/
  | advance
  /-- `monitor` polls one of its subscriptions -/
  | recv (topic : Topic)
  /-- `monitor`: `health.tick()` -/
  | tick
  /-- the adapter handles the request that was sent -/
  | handle (reply : Reply)
  /-- the worker takes the answer -/
  | answer
  /-- the call of the session times out or finds the session failed -/
  | timeout
  /-- the session fails -/
  | fail
  /-- `monitor`: `session.wait_failure()` -/
  | leave
  | deactivate

def World.subscription (w : World) : Topic → Option Nat
  | .states => w.states
  | .topology => w.topology

/-- The call of the core that the worker is in. -/
def Stage.call? : Stage → Option CallId
  | .during _ k => some k
  | _ => none

/-- What only the worker does: reading its subscriptions and dropping them, which it does at the end
    of its task, and running its call. -/
def World.owns (w : World) : Core.Action → Bool
  | .recv topic id => w.subscription topic = some id
  | .drop topic id => w.subscription topic = some id && !(w.stage matches .closed)
  | .advance k | .abandon k => w.stage.call? = some k
  | _ => false

/-- The operation of the core for a purpose. -/
def World.op (w : World) : Purpose → Option Core.Op
  | .subscribe => some (.subscribe w.eventBuffer)
  | .subscribeTopology => some (.subscribeTopology w.eventBuffer)
  | .snapshot .. => some .snapshot
  | .cancelStates => w.states.map (.cancel .states)
  | .cancelTopology => w.topology.map (.cancel .topology)

/-- The worker writes a request. -/
def World.send (w : World) (waiting : Waiting) (request : Request) : World :=
  { w with stage := .requesting waiting, exchange := .sent request }

/-- The start of `synchronize`. -/
def World.synchronize (w : World) (caller : Caller) : World :=
  { w with stage := .before (.snapshot caller (w.run.generation + 1)) }

/-- An error of `synchronize` or `refresh_health`, and one of an event: `wait_ready` returns it,
    `monitor` fails the session and leaves the loop. -/
def World.giveUp (w : World) : Caller → World
  | .waitReady => { w with stage := .closed }
  | .monitor => { w with stage := .before .cancelStates, failed := true }

/-- A call of the core has returned. -/
def World.resume (w : World) (purpose : Purpose) (outcome : Core.Outcome) : World :=
  match purpose, outcome with
  | .subscribe, .ok (.subscription id) =>
    { w with states := some id, stage := .before .subscribeTopology }
  | .subscribeTopology, .ok (.subscription id) =>
    World.synchronize { w with topology := some id, run := .new } .waitReady
  | .snapshot caller generation, .ok (.snapshot snapshot) =>
    match syncRequest snapshot generation with
    | .ok request => w.send (.sync caller request) (.sync request)
    | .error _ => w.giveUp caller
  | .cancelStates, _ => { w with stage := .before .cancelTopology }
  | .cancelTopology, _ => { w with stage := .deactivate }
  | _, _ => { w with stage := .closed }

/-- The worker after a step of its call `k`. -/
def World.after (w : World) (purpose : Purpose) (k : CallId) (core : Core.Sys) : World :=
  match core.calls[k]? with
  | some (.returned _ outcome) => World.resume { w with core } purpose outcome
  | _ => { w with core, stage := .during purpose k }

/-- `synchronize` after the adapter's response. -/
def World.synced (w : World) (caller : Caller) (request : SyncRequest) (response : SyncResponse) :
    World :=
  if response.generation ≠ request.generation ∨ response.devices ≠ request.devices.length then
    w.giveUp caller
  else match validateDiagnostics response.diagnostics with
    | .error _ => w.giveUp caller
    | .ok diagnostics =>
      let snapshot := projectionKeys request.devices
      match acceptedProjectionKeys response.projections snapshot with
      | .error _ => w.giveUp caller
      | .ok known =>
        let w := { w with
          exchange := .idle
          run := { w.run with
            generation := request.generation
            snapshotRevision := request.revision
            known
            snapshot
            diagnostics } }
        match caller with
        | .waitReady => w.send (.health .waitReady) .health
        | .monitor => { w with stage := .monitor }

/-- `refresh_health` after the adapter's response; `wait_ready` then activates the run. -/
def World.refreshed (w : World) (caller : Caller) (response : HealthResponse) : World :=
  match validateResources response.resources with
  | .error _ => w.giveUp caller
  | .ok resources => { w with
      stage := .monitor
      exchange := .idle
      run := { w.run with
        healthy := response.healthy, healthDetail := response.detail, resources } }

/-- The branch of `monitor` for a state event. -/
def World.stateEvent (w : World) (event : Event) : World :=
  if event.revision ≤ w.run.snapshotRevision then w
  else if !contains w.run.snapshot event then w.synchronize .monitor
  else if contains w.run.known event then w.send .event (.event (eventRequest event))
  else w

/-- The branch of `monitor` for a topology event. -/
def World.topologyEvent (w : World) (event : TopologyEvent) : World :=
  if event.revision > w.run.snapshotRevision then w.synchronize .monitor else w

/-- `recv` of a subscription: the next event, or the end of the loop. -/
def World.received {α : Type} (w : World) (queue : List α) (handle : World → α → World) : World :=
  match queue with
  | event :: _ => handle w event
  | [] => { w with stage := .before .cancelStates }

/-- The monitor polls `topic`. -/
def World.recv (w : World) (topic : Topic) : Option World :=
  (w.subscription topic).bind fun id =>
    (Core.step w.core (.recv topic id)).map fun core =>
      match topic with
      | .states => World.received { w with core }
          (w.core.shared.state.subscriptions.chan id).queue World.stateEvent
      | .topology => World.received { w with core }
          (w.core.shared.state.topologySubscriptions.chan id).queue World.topologyEvent

def World.step (w : World) : Action → Option World
  | .core a => if w.owns a then none else (Core.step w.core a).map fun core => { w with core }
  | .call k =>
    match w.stage with
    | .before purpose => (w.op purpose).bind fun op =>
        (Core.step w.core (.invoke k { op })).map (w.after purpose k)
    | _ => none
  | .advance =>
    match w.stage with
    | .during purpose k => (Core.step w.core (.advance k)).map (w.after purpose k)
    | _ => none
  | .recv topic =>
    match w.stage with
    | .monitor => w.recv topic
    | _ => none
  | .tick =>
    match w.stage with
    | .monitor => some (w.send (.health .monitor) .health)
    | _ => none
  | .handle reply =>
    match w.exchange with
    | .sent request => some
      { w with replica := w.replica.apply request, exchange := .replied reply }
    | _ => none
  | .answer =>
    match w.stage, w.exchange with
    | .requesting (.sync caller request), .replied (.sync response) =>
      some (w.synced caller request response)
    | .requesting .event, .replied .event => some { w with stage := .monitor, exchange := .idle }
    | .requesting (.health caller), .replied (.health response) =>
      some (w.refreshed caller response)
    | .requesting (.sync caller _), .replied _ => some (w.giveUp caller)
    | .requesting (.health caller), .replied _ => some (w.giveUp caller)
    | .requesting .event, .replied _ => some (w.giveUp .monitor)
    | _, _ => none
  | .timeout =>
    match w.stage with
    | .requesting (.sync caller _) | .requesting (.health caller) => some (w.giveUp caller)
    | .requesting .event => some (w.giveUp .monitor)
    | _ => none
  | .fail => some { w with failed := true }
  | .leave =>
    match w.stage with
    | .monitor => if w.failed then some { w with stage := .before .cancelStates } else none
    | _ => none
  | .deactivate =>
    match w.stage with
    | .deactivate => some { w with stage := .closed, failed := true }
    | _ => none

/-- An adapter process after `initialize`, over a runtime as `Runtime::new` leaves it. What happens
    to the core before the process is there are steps of others. -/
def World.new (persistent : Bool) (store : Core.DeviceId → Option Core.Record)
    (eventBuffer : Nat) : World where
  core := .new persistent store
  eventBuffer := eventBuffer
  stage := .before .subscribe
  states := none
  topology := none
  run := .new
  failed := false
  exchange := .idle
  replica := .empty

end Oikade.Adapter
