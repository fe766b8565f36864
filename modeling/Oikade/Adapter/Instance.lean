/-
  A supervised adapter instance (`oikade-adapter-host/src/instance.rs` and `instance/worker.rs`):
  the supervisor's loop, the sessions of its processes, `wait_ready` and `monitor`.

  Every launch makes a session and a run; a run is known by the number of its launch. The steps are
  those of the tasks from one await point to the next: the session's own (its frames, its calls),
  the supervisor's, those of the readiness attempt and those of the monitor of each activated run.
  What comes from outside is in the action: frames, exits of the process, deadlines, the events and
  snapshots of the core, the content of the hello frame.

  The session that a launch has prepared is taken by the readiness attempt that follows it; the
  stage `begin` holds it. The lock of `RunState` is held across no await point.
-/
import Oikade.Adapter.Worker
import Oikade.Session.Alike
import Oikade.Supervisor.Model

namespace Oikade.AdapterHost

open Adapter Session

/-! ## Bodies and texts -/

structure InitializeResponse where
  ready : Bool
  detail : String

structure Hello where
  adapterId : String
  adapterVersion : String
  minApiVersion : Nat
  maxApiVersion : Nat
  protocols : List String

/-- What serde makes of the body of each method's response, whether a method's request encodes, and
    `{:?}` of a string. -/
structure Formats where
  initializeResponse : String → Except String InitializeResponse
  syncResponse : String → Except String SyncResponse
  eventResponse : String → Except String Unit
  healthResponse : String → Except String HealthResponse
  openCommissioningWindowResponse : String → Except String OpenCommissioningWindowResponse
  commissioningInfoResponse : String → Except String CommissioningInfoResponse
  removeResourceResponse : String → Except String (List Resource)
  shutdownResponse : String → Except String Unit
  encoded : String → Except String Unit
  debug : String → String

/-- A request of `method` whose response has the given body. -/
def Formats.request {α : Type} (F : Formats) (method : String) (decode : String → Except String α) :
    Session.Request :=
  ⟨method, F.encoded method, fun body => (decode body).map fun _ => body⟩

/-- What `call` returns. -/
def taken {α : Type} (decode : String → Except String α) : Outcome → Except SessionError α
  | .error e => .error e
  | .ok body => (decode body).mapError .invalid

def apiVersion : Nat := 1

def failureText (F : Formats) : Failure → String
  | .closedTransport => "adapter closed the RPC transport"
  | .abandonedLimit => "adapter abandoned response limit reached"
  | .ignoredLimit => "plugin ignored response limit reached"
  | .unknownRequest id => "adapter response references unknown request " ++ toString id
  | .responseMethod got want =>
    "response method " ++ F.debug got ++ " does not match request " ++ F.debug want
  | .notificationBody _ => "adapter hello body is required"
  | .duplicateHello => "plugin sent duplicate hello"
  | .queueFull _ => "plugin event queue is full"
  | .beforeHello => "plugin sent notification before hello"
  | .unsupportedMethod method => "unsupported unsolicited plugin method " ++ F.debug method
  | .unsupportedNotification => "adapter sent an unsupported or duplicate notification"
  | .unsupportedTraffic => "adapter sent traffic before hello or an unsupported request"
  | .other message => message

def sessionErrorText (F : Formats) : SessionError → String
  | .closed failure =>
    "adapter session closed: " ++ (failure.map (failureText F)).getD "adapter session closed"
  | .protocol code message => "adapter protocol error " ++ code ++ ": " ++ message
  | .timeout => "adapter request timed out"
  | .pendingLimit => "adapter pending request limit reached"
  | .invalid message => "adapter protocol: " ++ message
  | .responseMethod got want => "adapter protocol: " ++ failureText F (.responseMethod got want)

def syncRequestErrorText (F : Formats) : SyncRequestError → String
  | .stopped => "core runtime is stopped"
  | .missing device capability =>
    "snapshot device " ++ F.debug device ++ " is missing capability " ++ F.debug capability ++ " state"

def projectionErrorText (F : Formats) : ProjectionError → String
  | .unknownDevice index device =>
    "projection " ++ toString index ++ " references unknown device " ++ F.debug device
  | .unknownCapability index device capability =>
    "projection " ++ toString index ++ " references unknown capability " ++ F.debug device ++ "/" ++
      F.debug capability
  | .duplicate index device capability =>
    "projection " ++ toString index ++ " duplicates capability " ++ F.debug device ++ "/" ++
      F.debug capability

def diagnosticErrorText : DiagnosticError → String
  | .tooMany => "adapter returned too many diagnostics"
  | .invalid => "adapter returned an invalid diagnostic"

def resourceErrorText : ResourceError → String
  | .tooMany => "adapter returned too many resources"
  | .invalid => "adapter returned an invalid resource"

/-! ## The instance -/

structure Spec where
  id : String
  adapterId : String
  adapterVersion : Option String
  protocol : String
  process : Supervisor.ProcessSpec

structure Run where
  session : Sys
  state : RunState

/-- Where `wait_ready` is, with the run it prepares. -/
inductive Readiness where
  | begin (run : Nat)
  | hello (run : Nat)
  | initializing (run : Nat) (k : CallId)
  | subscribe (run : Nat)
  | snapshot (run : Nat)
  | sync (run : Nat) (k : CallId) (request : SyncRequest)
  | health (run : Nat) (k : CallId)
  | activate (run : Nat)
  | returned (result : Except String Unit)

/-- Where the monitor of a run is. -/
inductive Monitor where
  | idle
  /-- `synchronize`, with what its failure is called -/
  | snapshot (what : String)
  | sync (k : CallId) (request : SyncRequest) (what : String)
  | event (k : CallId)
  | health (k : CallId)
  /-- behind the loop -/
  | leaving
  | ended

structure Instance where
  spec : Spec
  loop : Supervisor.Loop
  runs : Nat → Run
  launched : Nat
  readiness : Option Readiness
  active : Option Nat
  monitors : Nat → Option Monitor
  reportedVersion : Option String
  /-- the task that holds `operation` -/
  operation : Option Nat

/-- `Instance::new` -/
def Instance.new (spec : Spec) : Instance where
  spec
  loop := { Supervisor.Loop.init spec.process with phase := .finished, running := false }
  runs _ := ⟨.spawn .adapter, .new⟩
  launched := 0
  readiness := none
  active := none
  monitors _ := none
  reportedVersion := none
  operation := none

variable (F : Formats) (inst : Instance)

/-- A step of the session of a run. -/
def Instance.onSession (run : Nat) (a : Session.Action) : Option Instance :=
  (Session.step (inst.runs run).session a).map fun session =>
    { inst with runs := Function.update inst.runs run { inst.runs run with session } }

/-- `session.call(..)` up to its first await point. -/
def Instance.call {α : Type} (run : Nat) (k : CallId) (method : String)
    (decode : String → Except String α) : Option Instance :=
  inst.onSession run (.start k (F.request method decode))

/-- `session.fail(..)` up to its await point; the rest of it are steps of the session. -/
def Instance.failSession (run : Nat) (message : String) : Instance :=
  (inst.onSession run (.fail message)).getD inst

def Instance.setRun (run : Nat) (state : RunState) : Instance :=
  { inst with runs := Function.update inst.runs run { inst.runs run with state } }

/-- `Supervisor::start` -/
def Instance.startLoop : Except String Instance :=
  if inst.loop.running then .error "supervisor is already started"
  else .ok { inst with
    loop := { Supervisor.Loop.init inst.spec.process with
      status := inst.loop.status, clock := inst.loop.clock, history := inst.loop.history } }

/-! ## Synchronisation and health -/

/-- `synchronize` with the adapter's response. -/
def synced (request : SyncRequest) (response : SyncResponse) (state : RunState) :
    Except String RunState :=
  if response.generation ≠ request.generation ∨ response.devices ≠ request.devices.length then
    .error "adapter acknowledged the wrong sync generation or device count"
  else match validateDiagnostics response.diagnostics with
    | .error e => .error (diagnosticErrorText e)
    | .ok diagnostics =>
      let snapshot := projectionKeys request.devices
      match acceptedProjectionKeys response.projections snapshot with
      | .error e => .error (projectionErrorText F e)
      | .ok known => .ok { state with
          generation := request.generation
          snapshotRevision := request.revision
          known
          snapshot
          diagnostics }

/-- `refresh_health` with the adapter's response. -/
def refreshed (response : HealthResponse) (state : RunState) : Except String RunState :=
  match validateResources response.resources with
  | .error e => .error ("adapter operation: " ++ resourceErrorText e)
  | .ok resources => .ok { state with
      healthy := response.healthy, healthDetail := response.detail, resources }

/-! ## Readiness -/

def validateHello (spec : Spec) (hello : Hello) : Except String Unit :=
  if hello.adapterId ≠ spec.adapterId then .error "adapter hello ID does not match configured ID"
  else if hello.adapterVersion.isEmpty ||
      spec.adapterVersion.any (· ≠ hello.adapterVersion) then
    .error "adapter hello version is empty or does not match"
  else if apiVersion < hello.minApiVersion ∨ hello.maxApiVersion < apiVersion ∨
      spec.protocol ∉ hello.protocols then
    .error "adapter does not support the configured API or protocol"
  else .ok ()

/-- What `wait_ready` goes on with: `k` names the call it makes next. -/
inductive ReadyInput where
  | begin
  | hello (hello : Hello) (k : CallId)
  | closed
  | timeout
  /-- the call has returned -/
  | take (k : CallId)
  | subscribed (result : Except String Unit)
  | snapshot (snapshot : Core.Snapshot) (k : CallId)
  | activate

def Instance.endReadiness (result : Except String Unit) : Instance :=
  { inst with readiness := some (.returned result) }

/-- `activate` -/
def Instance.activate (run : Nat) : Instance :=
  let inst := match inst.active with
    | some previous => inst.failSession previous "adapter session replaced"
    | none => inst
  { inst with
    active := some run
    monitors := Function.update inst.monitors run (some .idle)
    readiness := some (.returned (.ok ())) }

/-- `wait_ready` with the hello of the adapter. -/
def Instance.greeted (run : Nat) (hello : Hello) (k : CallId) : Option Instance :=
  match validateHello inst.spec hello with
  | .error e => some (inst.endReadiness (.error e))
  | .ok () =>
    let inst := { inst with reportedVersion := some hello.adapterVersion }
    (inst.call F run k "initialize" F.initializeResponse).map fun inst =>
      { inst with readiness := some (.initializing run k) }

/-- `wait_ready` with the response to `initialize`. -/
def Instance.initialized (run : Nat) (outcome : Outcome) : Instance :=
  match taken F.initializeResponse outcome with
  | .error e => inst.endReadiness (.error (sessionErrorText F e))
  | .ok response =>
    if response.ready then { inst with readiness := some (.subscribe run) }
    else inst.endReadiness (.error ("adapter is not ready: " ++ response.detail))

/-- `synchronize` of `wait_ready` with the snapshot of the core. -/
def Instance.readySnapshot (run : Nat) (snapshot : Core.Snapshot) (k : CallId) : Option Instance :=
  match syncRequest snapshot ((inst.runs run).state.generation + 1) with
  | .error e => some (inst.endReadiness (.error (syncRequestErrorText F e)))
  | .ok request => (inst.call F run k "sync" F.syncResponse).map fun inst =>
      { inst with readiness := some (.sync run k request) }

/-- `wait_ready` with the response to `sync`. -/
def Instance.readySynced (run : Nat) (request : SyncRequest) (k : CallId) (outcome : Outcome) :
    Option Instance :=
  match taken F.syncResponse outcome with
  | .error e => some (inst.endReadiness (.error (sessionErrorText F e)))
  | .ok response =>
    match synced F request response (inst.runs run).state with
    | .error e => some (inst.endReadiness (.error e))
    | .ok state => ((inst.setRun run state).call F run k "health" F.healthResponse).map fun inst =>
        { inst with readiness := some (.health run k) }

/-- `wait_ready` with the response to `health`. -/
def Instance.readyRefreshed (run : Nat) (outcome : Outcome) : Instance :=
  match taken F.healthResponse outcome with
  | .error e => inst.endReadiness (.error (sessionErrorText F e))
  | .ok response =>
    match refreshed response (inst.runs run).state with
    | .error e => inst.endReadiness (.error e)
    | .ok state => { inst.setRun run state with readiness := some (.activate run) }

/-- `wait_ready` from one await point to the next. -/
def Instance.readyStep (input : ReadyInput) : Option Instance :=
  match inst.readiness, input with
  | some (.begin run), .begin =>
    match inst.loop.phase with
    | .waiting (some pid) => (inst.onSession run (.setPid pid)).map fun inst =>
        { inst with readiness := some (.hello run) }
    | _ => none
  | some (.hello run), .hello hello k =>
    if (inst.runs run).session.hello then inst.greeted F run hello k else none
  | some (.hello run), .closed =>
    if (inst.runs run).session.hello = false ∧ (inst.runs run).session.reader = .stopped then
      some (inst.endReadiness
        (.error (sessionErrorText F (.closed (inst.runs run).session.failure))))
    else none
  | some (.hello run), .timeout =>
    if (inst.runs run).session.hello then none
    else some (inst.endReadiness (.error (sessionErrorText F .timeout)))
  | some (.initializing run k), .take _ =>
    ((inst.runs run).session.outcome k).map (inst.initialized F run)
  | some (.subscribe run), .subscribed result =>
    match result with
    | .error e => some (inst.endReadiness (.error e))
    | .ok () => some { inst.setRun run .new with readiness := some (.snapshot run) }
  | some (.snapshot run), .snapshot snapshot k => inst.readySnapshot F run snapshot k
  | some (.sync run k request), .take k' =>
    ((inst.runs run).session.outcome k).bind (inst.readySynced F run request k')
  | some (.health run k), .take _ =>
    ((inst.runs run).session.outcome k).map (inst.readyRefreshed F run)
  | some (.activate run), .activate => some (inst.activate run)
  | _, _ => none

/-- The readiness attempt is dropped, with the call it is in. -/
def Instance.dropReadiness : Instance :=
  match inst.readiness with
  | some (.initializing run k) | some (.sync run k _) | some (.health run k) =>
    { (inst.onSession run (.drop k)).getD inst with readiness := none }
  | _ => { inst with readiness := none }

/-! ## The monitor -/

/-- What `monitor` goes on with: `k` names the call it makes next. -/
inductive MonitorInput where
  | state (event : Core.Event) (k : CallId)
  | topology (revision : Nat)
  /-- a subscription has ended -/
  | closed
  | tick (k : CallId)
  /-- `wait_failure` -/
  | failed
  | snapshot (snapshot : Core.Snapshot) (k : CallId)
  /-- the call has returned -/
  | take
  | deactivate

def Instance.setMonitor (run : Nat) (monitor : Monitor) : Instance :=
  { inst with monitors := Function.update inst.monitors run (some monitor) }

/-- The monitor fails the session and leaves its loop. -/
def Instance.giveUp (run : Nat) (message : String) : Instance :=
  (inst.failSession run message).setMonitor run .leaving

/-- The branch for a state event. -/
def Instance.stateEvent (run : Nat) (event : Core.Event) (k : CallId) : Option Instance :=
  let state := (inst.runs run).state
  if event.revision ≤ state.snapshotRevision then some inst
  else if !contains state.snapshot event then some (inst.setMonitor run (.snapshot "synchronize adapter"))
  else if contains state.known event then
    (inst.call F run k "event" F.eventResponse).map fun inst => inst.setMonitor run (.event k)
  else some inst

/-- `deactivate` -/
def Instance.deactivate (run : Nat) : Instance :=
  if inst.active = some run then
    { inst with active := none }.failSession run "adapter session deactivated"
  else inst

/-- `synchronize` of the monitor with the snapshot of the core. -/
def Instance.monitorSnapshot (run : Nat) (what : String) (snapshot : Core.Snapshot) (k : CallId) :
    Option Instance :=
  match syncRequest snapshot ((inst.runs run).state.generation + 1) with
  | .error e => some (inst.giveUp run (what ++ ": " ++ syncRequestErrorText F e))
  | .ok request => (inst.call F run k "sync" F.syncResponse).map fun inst =>
      inst.setMonitor run (.sync k request what)

/-- The monitor with the response to `sync`. -/
def Instance.monitorSynced (run : Nat) (request : SyncRequest) (what : String) (outcome : Outcome) :
    Instance :=
  match taken F.syncResponse outcome with
  | .error e => inst.giveUp run (what ++ ": " ++ sessionErrorText F e)
  | .ok response =>
    match synced F request response (inst.runs run).state with
    | .error e => inst.giveUp run (what ++ ": " ++ e)
    | .ok state => (inst.setRun run state).setMonitor run .idle

/-- The monitor with the response to `event`. -/
def Instance.monitorForwarded (run : Nat) (outcome : Outcome) : Instance :=
  match taken F.eventResponse outcome with
  | .error e => inst.giveUp run ("forward adapter event: " ++ sessionErrorText F e)
  | .ok () => inst.setMonitor run .idle

/-- The monitor with the response to `health`. -/
def Instance.monitorRefreshed (run : Nat) (outcome : Outcome) : Instance :=
  match taken F.healthResponse outcome with
  | .error e => inst.giveUp run ("adapter health check failed: " ++ sessionErrorText F e)
  | .ok response =>
    match refreshed response (inst.runs run).state with
    | .error e => inst.giveUp run ("adapter health check failed: " ++ e)
    | .ok state => (inst.setRun run state).setMonitor run .idle

/-- `monitor` from one await point to the next. -/
def Instance.monitorStep (run : Nat) (input : MonitorInput) : Option Instance :=
  match inst.monitors run, input with
  | some .idle, .state event k => inst.stateEvent F run event k
  | some .idle, .topology revision =>
    if (inst.runs run).state.snapshotRevision < revision then
      some (inst.setMonitor run (.snapshot "synchronize adapter topology"))
    else some inst
  | some .idle, .closed => some (inst.setMonitor run .leaving)
  | some .idle, .tick k => (inst.call F run k "health" F.healthResponse).map fun inst =>
      inst.setMonitor run (.health k)
  | some .idle, .failed =>
    if (inst.runs run).session.failure.isSome then some (inst.setMonitor run .leaving) else none
  | some (.snapshot what), .snapshot snapshot k => inst.monitorSnapshot F run what snapshot k
  | some (.sync k request what), .take =>
    ((inst.runs run).session.outcome k).map (inst.monitorSynced F run request what)
  | some (.event k), .take => ((inst.runs run).session.outcome k).map (inst.monitorForwarded F run)
  | some (.health k), .take => ((inst.runs run).session.outcome k).map (inst.monitorRefreshed F run)
  | some .leaving, .deactivate => some ((inst.deactivate run).setMonitor run .ended)
  | _, _ => none

/-! ## The machine -/

inductive Action where
  /-- a step inside the session of a run: frames that arrive, calls that go on -/
  | session (run : Nat) (a : Session.Action)
  /-- `launch`: whether a session was prepared, and the result -/
  | launch (prepared : Bool) (result : Except String (Option Nat))
  /-- a step of the supervisor -/
  | supervise (a : Supervisor.Action)
  /-- the supervisor sees that `wait_ready` has returned -/
  | ready (startedAt : Nat)
  | readiness (input : ReadyInput)
  | monitor (run : Nat) (input : MonitorInput)

/-- The steps that the tasks of the session take by themselves. -/
def ownStep : Session.Action → Bool
  | .advance _ | .refuse _ | .receive _ | .read | .drain => true
  | _ => false

/-- The steps of the supervisor that need nothing of the instance. -/
def supervisorStep : Supervisor.Action → Bool
  | .head | .terminated _ | .exit .. | .cancel | .slept => true
  | _ => false

/-- The ways in which a readiness attempt ends from outside. -/
def endsReadiness : Supervisor.Action → Bool
  | .ready (.probed _) _ => false
  | .ready .. => true
  | _ => false

/-- `prepare`: the session and the run of the next launch, which nobody monitors yet. -/
def Instance.prepare : Instance :=
  { inst with
    launched := inst.launched + 1
    runs := Function.update inst.runs inst.launched ⟨.spawn .adapter, .new⟩
    monitors := Function.update inst.monitors inst.launched none }

def Instance.step : Action → Option Instance
  | .session run a => if ownStep a && run < inst.launched then inst.onSession run a else none
  | .launch prepared result =>
    (Supervisor.step inst.spec.process inst.loop (.launch result)).bind fun loop =>
      match prepared, result with
      | false, .ok _ => none
      | false, .error _ => some { inst with loop }
      | true, .error _ => some { inst.prepare with loop, readiness := none }
      | true, .ok _ => some { inst.prepare with loop, readiness := some (.begin inst.launched) }
  | .supervise a =>
    if supervisorStep a then
      (Supervisor.step inst.spec.process inst.loop a).map fun loop => { inst with loop }
    else if endsReadiness a then
      (Supervisor.step inst.spec.process inst.loop a).map fun loop =>
        { inst.dropReadiness with loop }
    else none
  | .ready startedAt =>
    match inst.readiness with
    | some (.returned result) =>
      (Supervisor.step inst.spec.process inst.loop (.ready (.probed result) startedAt)).map
        fun loop => { inst with loop, readiness := none }
    | _ => none
  | .readiness input => inst.readyStep F input
  | .monitor run input => inst.monitorStep F run input

end Oikade.AdapterHost
