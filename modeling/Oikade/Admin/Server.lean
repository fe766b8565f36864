/-
  The admin endpoints for adapters (`oikade-admin/src/server.rs`) over the adapter instances of a
  daemon, with the operations of an instance that they call (`oikade-adapter-host/src/instance.rs`).

  A request is a task that goes from one await point to the next; any number of them run beside the
  instances. The client may go away, which drops the task. Bodies that are no valid JSON are refused
  before anything is looked at and are left out. `responses` keeps what the endpoints have answered.
  The server is the last component of the daemon: it serves once every adapter has been started.
-/
import Oikade.Adapter.Instance

namespace Oikade.Admin

open AdapterHost Session
open Adapter (OpenCommissioningWindowResponse CommissioningInfoResponse Resource Diagnostic
  validateCommissioningResponse validateCommissioningInfoResponse validateResources)

/-! ## Errors -/

/-- The errors that the operations return. -/
inductive InstanceError where
  /-- "adapter operation: .." -/
  | operation (message : String)
  /-- "adapter protocol error ..: .." -/
  | adapterProtocol (code message : String)
  deriving DecidableEq, Repr

def windowConflictMessage : String := "a commissioning window is already active"
def windowClosingMessage : String := "the previous commissioning window is still closing"

def publicProtocolError (code : String) : Option (String × String) :=
  if code = "window_conflict" then some ("window_conflict", windowConflictMessage)
  else if code = "window_closing" then some ("window_closing", windowClosingMessage)
  else none

def InstanceError.protocolError : InstanceError → Option (String × String)
  | .adapterProtocol code _ => publicProtocolError code
  | _ => none

def mapSessionError (F : Formats) : SessionError → InstanceError
  | .protocol code _ =>
    match publicProtocolError code with
    | some (code, message) => .adapterProtocol code message
    | none => .operation "adapter returned an unsupported protocol error"
  | other => .operation (sessionErrorText F other)

/-- An error response: the HTTP status and its payload. -/
structure ApiFailure where
  status : Nat
  code : String
  message : String
  deriving DecidableEq, Repr

def notFound : ApiFailure := ⟨404, "not_found", "resource was not found"⟩

def adapterFailure (error : InstanceError) : ApiFailure :=
  match error.protocolError with
  | some (code, message) => ⟨502, code, message⟩
  | none => ⟨502, "adapter_error", "adapter operation failed"⟩

/-! ## Requests and responses -/

structure Adapter where
  instanceId : String
  adapterId : String
  version : String
  protocol : String
  state : Supervisor.State
  healthy : Bool
  pid : Option Nat
  restarts : Nat
  generation : Nat
  snapshotRevision : Nat
  devices : Nat
  diagnostics : List Diagnostic
  resources : List Resource
  lastError : Option String
  healthDetail : String

/-- The operations that are one call of the adapter. -/
inductive Operation where
  | openWindow (durationSeconds : Nat)
  | info
  | remove (resourceType id : String)
  deriving DecidableEq, Repr

inductive Request where
  | list
  | inspect (instanceId : String)
  | operate (instanceId : String) (operation : Operation)
  | reset (instanceId confirmation : String)

inductive Response where
  | adapters (adapters : List Adapter)
  | adapter (adapter : Adapter)
  | window (response : OpenCommissioningWindowResponse)
  | info (response : CommissioningInfoResponse)
  | resources (resources : List Resource)
  | reset (instanceId : String)
  | failure (failure : ApiFailure)

/-! ## The daemon -/

/-- What `status` has read of an instance so far. -/
inductive Reading where
  | nothing
  | process (status : Supervisor.Status)
  | version (status : Supervisor.Status) (version : String)
  /-- with the active run, whose state is read under its own lock -/
  | active (status : Supervisor.Status) (version : String) (run : Option Nat)

/-- Where a reset is. -/
inductive Reset where
  /-- before the lock -/
  | lock
  /-- `stop`: before it looks for the run -/
  | active
  /-- `stop`: the call of `shutdown` -/
  | shutdown (run : Nat) (k : CallId)
  /-- `stop`: waiting for the supervisor -/
  | stopping
  /-- before `reset_state_directory` -/
  | directory
  /-- `start`, with the error of `reset_state_directory` -/
  | starting (cause : Option String)

/-- A request in progress. -/
inductive Task where
  /-- `adapter_statuses`, for one instance or for all -/
  | statuses (wanted : Option String) (done : List Adapter) (reading : Reading)
  | operate (i : Nat) (operation : Operation)
  /-- in the call of an operation -/
  | calling (i : Nat) (operation : Operation) (run : Nat) (k : CallId)
  | resetting (i : Nat) (reset : Reset)

structure Daemon where
  count : Nat
  adapters : Nat → Instance
  serving : Bool
  tasks : Nat → Option Task
  responses : List (Nat × Response)

def Daemon.new (specs : List Spec) : Daemon where
  count := specs.length
  adapters i := .new (specs.getD i ⟨"", "", none, "", ⟨"", true, {}⟩⟩)
  serving := false
  tasks _ := none
  responses := []

variable (F : Formats) (d : Daemon)

def Daemon.setAdapter (i : Nat) (inst : Instance) : Daemon :=
  { d with adapters := Function.update d.adapters i inst }

def Daemon.setTask (q : Nat) (task : Option Task) : Daemon :=
  { d with tasks := Function.update d.tasks q task }

/-- The task answers and ends. -/
def Daemon.respond (q : Nat) (response : Response) : Daemon :=
  { d.setTask q none with responses := d.responses ++ [(q, response)] }

/-- The task lets go of the operation lock, if it holds it. -/
def Daemon.release (q i : Nat) : Daemon :=
  if (d.adapters i).operation = some q then
    d.setAdapter i { d.adapters i with operation := none }
  else d

/-- The task answers with an error and lets go of the lock. -/
def Daemon.refuse (q i : Nat) (error : InstanceError) : Daemon :=
  (d.release q i).respond q (.failure (adapterFailure error))

/-- `find_adapter` -/
def Daemon.find (instanceId : String) : Option Nat :=
  (List.range d.count).find? fun i => (d.adapters i).spec.id = instanceId

/-! ## Statuses -/

/-- The record of one adapter: what was read before and the state of the run that was active then. -/
def adapterRecord (inst : Instance) (status : Supervisor.Status) (version : String)
    (run : Option Nat) : Adapter :=
  let state := (run.map fun run => (inst.runs run).state).getD .new
  { instanceId := inst.spec.id
    adapterId := inst.spec.adapterId
    version
    protocol := inst.spec.protocol
    state := status.state
    healthy := status.state = .running && state.healthy
    pid := status.pid
    restarts := status.restarts
    generation := state.generation
    snapshotRevision := state.snapshotRevision
    devices := state.known.size
    diagnostics := state.diagnostics
    resources := state.resources
    lastError := status.lastError
    healthDetail := state.healthDetail }

/-- The answer of `get_adapters` and `get_adapter`. -/
def statusesResponse (wanted : Option String) (done : List Adapter) : Response :=
  let adapters := done.mergeSort fun left right => left.instanceId ≤ right.instanceId
  match wanted with
  | none => .adapters adapters
  | some id => match adapters.find? (·.instanceId = id) with
    | some adapter => .adapter adapter
    | none => .failure notFound

/-- `adapter_statuses`: one adapter after the other, each read in four parts. -/
def Daemon.statusStep (q : Nat) (wanted : Option String) (done : List Adapter) (reading : Reading) :
    Daemon :=
  let inst := d.adapters done.length
  if d.count ≤ done.length then d.respond q (statusesResponse wanted done)
  else match reading with
    | .nothing => d.setTask q (some (.statuses wanted done (.process inst.loop.status)))
    | .process status =>
      let version := (inst.reportedVersion.or inst.spec.adapterVersion).getD ""
      d.setTask q (some (.statuses wanted done (.version status version)))
    | .version status version =>
      d.setTask q (some (.statuses wanted done (.active status version inst.active)))
    | .active status version run =>
      d.setTask q (some (.statuses wanted (done ++ [adapterRecord inst status version run]) .nothing))

/-! ## Operations -/

/-- What an operation checks before it looks for the run. -/
def Operation.check : Operation → Except InstanceError Unit
  | .openWindow seconds =>
    if Adapter.minimumCommissioningWindowSeconds ≤ seconds ∧
        seconds ≤ Adapter.maximumCommissioningWindowSeconds then .ok ()
    else .error (.operation "commissioning duration must be between 180 and 900 whole seconds")
  | .remove resourceType id =>
    if resourceType.isEmpty || resourceType ≠ Text.trim resourceType || id.isEmpty ||
        id ≠ Text.trim id then
      .error (.operation "resource type and ID must be non-empty and trimmed")
    else .ok ()
  | .info => .ok ()

/-- The call of an operation. -/
def Operation.call (inst : Instance) (run : Nat) (k : CallId) : Operation → Option Instance
  | .openWindow _ =>
    inst.call F run k "open_commissioning_window" F.openCommissioningWindowResponse
  | .info => inst.call F run k "commissioning_info" F.commissioningInfoResponse
  | .remove .. => inst.call F run k "remove_resource" F.removeResourceResponse

/-- Whether the operation takes the lock. -/
def Operation.locks : Operation → Bool
  | .info => false
  | _ => true

/-- An operation up to its call. -/
def Daemon.begin (q i : Nat) (operation : Operation) (k : CallId) : Option Daemon :=
  let inst := d.adapters i
  if operation.locks && inst.operation.isSome then none
  else match operation.check with
    | .error e => some (d.refuse q i e)
    | .ok () =>
      match inst.active with
      | none => some (d.refuse q i (.operation "adapter is not running"))
      | some run => (operation.call F inst run k).map fun inst =>
          let inst := if operation.locks then { inst with operation := some q } else inst
          (d.setAdapter i inst).setTask q (some (.calling i operation run k))

def commissioningErrorText : Adapter.CommissioningError → String
  | .data => "adapter returned invalid commissioning data"
  | .status => "adapter returned invalid commissioning status"

/-- The result of an operation from that of its call, and the resources it leaves with the run. -/
def Operation.result (operation : Operation) (outcome : Outcome) :
    Except InstanceError (Response × Option (List Resource)) :=
  match operation with
  | .openWindow _ =>
    match taken F.openCommissioningWindowResponse outcome with
    | .error e => .error (mapSessionError F e)
    | .ok response =>
      match validateCommissioningResponse response with
      | .error e => .error (.operation (commissioningErrorText e))
      | .ok () => .ok (.window response, none)
  | .info =>
    match taken F.commissioningInfoResponse outcome with
    | .error e => .error (mapSessionError F e)
    | .ok response =>
      match validateCommissioningInfoResponse response with
      | .error e => .error (.operation (commissioningErrorText e))
      | .ok () => .ok (.info response, none)
  | .remove .. =>
    match taken F.removeResourceResponse outcome with
    | .error e => .error (mapSessionError F e)
    | .ok resources =>
      match validateResources resources with
      | .error e => .error (.operation (resourceErrorText e))
      | .ok resources => .ok (.resources resources, some resources)

/-- An operation when its call has returned. -/
def Daemon.finish (q i : Nat) (operation : Operation) (run : Nat) (outcome : Outcome) : Daemon :=
  match operation.result F outcome with
  | .error e => d.refuse q i e
  | .ok (response, resources) =>
    let inst := d.adapters i
    let d := match resources with
      | some resources =>
        d.setAdapter i (inst.setRun run { (inst.runs run).state with resources })
      | none => d
    (d.release q i).respond q response

/-! ## The reset -/

/-- `reset_state` up to the call of `stop`. The lock is taken in the step that looks at `active`:
    between the two the task would only wait, and nobody else has the lock. -/
def Daemon.beginReset (q i : Nat) : Option Daemon :=
  let inst := d.adapters i
  if inst.operation.isSome then none
  else if inst.active.isNone then some (d.refuse q i (.operation "adapter is not running"))
  else some ((d.setAdapter i { inst with operation := some q }).setTask q
    (some (.resetting i .active)))

/-- `stop` has returned: `deactivate`, then the directory. -/
def Daemon.stopped (q i : Nat) : Daemon :=
  let inst := d.adapters i
  let inst := match inst.active with
    | some run => inst.deactivate run
    | none => inst
  (d.setAdapter i inst).setTask q (some (.resetting i .directory))

/-- `Supervisor::stop` up to its await point. -/
def Daemon.stopLoop (q i : Nat) : Daemon :=
  let inst := d.adapters i
  if inst.loop.running then
    match Supervisor.step inst.spec.process inst.loop .stop with
    | some loop => (d.setAdapter i { inst with loop }).setTask q (some (.resetting i .stopping))
    | none => d
  else d.stopped q i

/-- `stop` up to its first await point: it looks for the run anew, which may be another one by now, or
    none. -/
def Daemon.beginStop (q i : Nat) (k : CallId) : Option Daemon :=
  let inst := d.adapters i
  match inst.active with
  | none => some (d.stopLoop q i)
  | some run => (inst.call F run k "shutdown" F.shutdownResponse).map fun inst =>
      (d.setAdapter i inst).setTask q (some (.resetting i (.shutdown run k)))

/-- The end of a reset: the result of `start`, and the error of `reset_state_directory`. -/
def resetResult (instanceId : String) (cause : Option String) (start : Except String Unit) :
    Except InstanceError Response :=
  match cause, start with
  | none, .ok () => .ok (.reset instanceId)
  | none, .error e => .error (.operation ("restart adapter after state reset: " ++ e))
  | some cause, .ok () => .error (.operation ("reset adapter state: " ++ cause))
  | some cause, .error e => .error (.operation
      ("reset adapter state: " ++ cause ++ "; restart adapter after failed reset: " ++ e))

/-- The error of `Supervisor::start` for a process that was not ready. -/
def initialFailureText (inst : Instance) (message : String) : String :=
  "process " ++ F.debug inst.spec.process.name ++ " did not become ready: " ++ message

/-- A reset ends. -/
def Daemon.endReset (q i : Nat) (cause : Option String) (start : Except String Unit) : Daemon :=
  match resetResult (d.adapters i).spec.id cause start with
  | .error e => d.refuse q i e
  | .ok response => (d.release q i).respond q response

/-- What a reset goes on with. -/
inductive ResetInput where
  | lock
  /-- the active run, `k` names the call -/
  | active (k : CallId)
  | next
  /-- the deadline of `stop` -/
  | timeout
  /-- the result of `reset_state_directory` -/
  | directory (result : Except String Unit)

def Daemon.resetStep (q i : Nat) (reset : Reset) (input : ResetInput) : Option Daemon :=
  let inst := d.adapters i
  match reset, input with
  | .lock, .lock => d.beginReset q i
  | .active, .active k => d.beginStop F q i k
  | .shutdown run k, .next => ((inst.runs run).session.outcome k).map fun _ => d.stopLoop q i
  | .stopping, .next => if inst.loop.running then none else some (d.stopped q i)
  | .stopping, .timeout =>
    some (d.refuse q i (.operation ("stop adapter before state reset: stop process " ++
      F.debug inst.spec.process.name ++ " timed out")))
  | .directory, .directory result =>
    let cause := match result with | .ok () => none | .error e => some e
    match inst.startLoop with
    | .error e => some (d.endReset q i cause (.error e))
    | .ok inst => some ((d.setAdapter i inst).setTask q (some (.resetting i (.starting cause))))
  | .starting cause, .next =>
    match inst.loop.initialReady with
    | some (.ok ()) => some (d.endReset q i cause (.ok ()))
    | some (.error e) =>
      if inst.loop.running then none
      else some (d.endReset q i cause (.error (initialFailureText F inst e)))
    | none => none
  | _, _ => none

/-! ## The machine -/

inductive Action where
  | adapter (i : Nat) (a : AdapterHost.Action)
  /-- the daemon starts an adapter -/
  | start (i : Nat)
  /-- the admin server starts -/
  | serve
  | request (q : Nat) (request : Request)
  /-- a request goes on; `k` names the call it makes -/
  | advance (q : Nat) (k : CallId)
  | reset (q : Nat) (input : ResetInput)
  /-- the client goes away -/
  | drop (q : Nat)

/-- A new request. -/
def Daemon.receive (q : Nat) : Request → Daemon
  | .list => d.setTask q (some (.statuses none [] .nothing))
  | .inspect id => d.setTask q (some (.statuses (some id) [] .nothing))
  | .operate id operation =>
    match d.find id with
    | none => d.respond q (.failure notFound)
    | some i => d.setTask q (some (.operate i operation))
  | .reset id confirmation =>
    if confirmation ≠ id then
      d.respond q (.failure ⟨400, "confirmation_required",
        "confirmation must exactly match the adapter instance ID"⟩)
    else match d.find id with
      | none => d.respond q (.failure notFound)
      | some i => d.setTask q (some (.resetting i .lock))

/-- The call of a session that a task is in is dropped with it. -/
def Daemon.dropTask (q : Nat) : Task → Daemon
  | .statuses .. => d.setTask q none
  | .operate .. => d.setTask q none
  | .calling i _ run k | .resetting i (.shutdown run k) =>
    let inst := ((d.adapters i).onSession run (.drop k)).getD (d.adapters i)
    ((d.setAdapter i inst).release q i).setTask q none
  | .resetting i _ => (d.release q i).setTask q none

def Daemon.step : Action → Option Daemon
  | .adapter i a => if i < d.count then ((d.adapters i).step F a).map (d.setAdapter i) else none
  | .start i =>
    if i < d.count then
      match (d.adapters i).startLoop with
      | .ok inst => some (d.setAdapter i inst)
      | .error _ => none
    else none
  | .serve =>
    if (List.range d.count).all fun i => (d.adapters i).loop.initialReady = some (.ok ()) then
      some { d with serving := true }
    else none
  | .request q request =>
    if d.serving && (d.tasks q).isNone then some (d.receive q request) else none
  | .advance q k =>
    match d.tasks q with
    | some (.statuses wanted done reading) => some (d.statusStep q wanted done reading)
    | some (.operate i operation) => d.begin F q i operation k
    | some (.calling i operation run k) =>
      ((((d.adapters i).runs run).session.outcome k)).map (d.finish F q i operation run)
    | _ => none
  | .reset q input =>
    match d.tasks q with
    | some (.resetting i reset) => d.resetStep F q i reset input
    | _ => none
  | .drop q => (d.tasks q).map (d.dropTask q)

end Oikade.Admin
