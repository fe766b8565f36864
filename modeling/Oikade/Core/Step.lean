/-
  The steps of the runtime machine: the code between two await points (`body`), what it does to the
  shared data (`Effect.apply`), and the machine of all calls (`step`).

  `body` returns an error where the source leaves the function with `?`; no step that ends in an
  error has an effect (the save of an earlier step is an effect of that step).
-/
import Oikade.Core.Runtime

namespace Oikade.Core

open Broadcast (Hub Entry)

/-- The code from an await point to the next one; `none` for an await point that the operation
    does not have. -/
def body (sh : Shared) (call : Call) : Pc → Option (Except RuntimeError (Effect × Next))
  | .lifecycle => some (.ok (.none, .goto .enter))
  | .enter =>
    match call.op with
    | .start =>
      some (if sh.state.started then .error .alreadyStarted else .ok (.start, .ret .done))
    | .stop => some (.ok (if sh.state.started then .stop else .none, .ret .done))
    | .register d _ => some (enterRegister sh d)
    | .unregister d => some (enterUnregister sh d)
    | .read d c => some (enterRead sh d c)
    | .writeValue command => some (enterWriteValue sh command)
    | .publish d c v => some (enterPublish sh d c v)
    | .subscribe buffer => some do
      ensureStarted sh.state
      .ok (.subscribe .states buffer, .ret (.subscription (sh.state.subscriptions.next + 1)))
    | .subscribeTopology buffer => some do
      ensureStarted sh.state
      .ok (.subscribe .topology buffer,
        .ret (.subscription (sh.state.topologySubscriptions.next + 1)))
    | .snapshot | .cancel .. => none
  | .readValues r =>
    match call.op with
    | .read d c => some (match (sh.values r.ref).current[c]? with
      | some v => .ok (.none, .ret (.value v))
      | none => .error (capabilityNotFound d c))
    | _ => none
  | .commandSerial r c => some (.ok (.none, .goto (.confirm r c)))
  | .confirm r c =>
    match call.op with
    | .writeValue command => some do
      confirmRegistration sh.state command.deviceId r
      if r.handler then .ok (.none, .goto (.handling r c))
      else .error (.missingCommandHandler (slashed command.deviceId command.capabilityId))
    | .publish d _ v => some do
      confirmRegistration sh.state d r
      .ok (.none, .goto (.commit r c v))
    | _ => none
  | .handling r c =>
    match call.op with
    | .writeValue command => some (match call.handled with
      | .error message =>
        .error (.command command.deviceId.asStr command.capabilityId.asStr message)
      | .ok effective => match validateCapabilityValue c effective with
        | .error reason => .error (.invalidValue (.integration reason))
        | .ok () => .ok (.none, .goto (.commit r c effective)))
    | _ => none
  | .commit r c v =>
    some (.ok
      (if ((sh.values r.ref).current[c.id]?).any (Value.partialEq v) then
        (.none, .ret (call.op.committed v))
      else
        let next := (sh.values r.ref).persisted.insert c.id v
        (.none, .goto (if sh.persistent then .saving r c v next else .confirmSaved r c v next))))
  | .saving r c v next =>
    match call.op.target with
    | some (d, _) => some (match call.saved with
      | .error message => .error (.persist d.asStr c.id.asStr message)
      | .ok () => .ok (.save d next, .goto (.confirmSaved r c v next)))
    | none => none
  | .confirmSaved r c v next =>
    match call.op.target with
    | some (d, _) => some do
      confirmRegistration sh.state d r
      .ok (.update r.ref ⟨(sh.values r.ref).current.insert c.id v, next⟩, .goto (.advance r c v))
    | none => none
  | .advance r c v =>
    match call.op.target with
    | some (d, _) => some (.ok (.commit d r c v call.now, .ret (call.op.committed v)))
    | none => none
  | .loading =>
    match call.op with
    | .register d _ => some (match call.loaded with
      | .error message => .error (.restore d.id.asStr (.store message))
      | .ok () => registerLoaded sh d (sh.store d.id))
    | _ => none
  | .savingInitial values =>
    match call.op with
    | .register d _ => some (match call.saved with
      | .error message => .error (.persist d.id.asStr "initial-state" message)
      | .ok () => .ok (.save d.id values.persisted, .goto (.insert values)))
    | _ => none
  | .insert values =>
    match call.op with
    | .register d handler => some do
      ensureStarted sh.state
      if d.id ∈ sh.state.devices then .error (.alreadyExists d.id.asStr)
      else .ok (.insert ⟨sh.nextRef, d, capabilityMap d.capabilities, handler⟩ values, .ret .done)
    | _ => none
  | .unregisterSerial r => some (.ok (.none, .goto (.remove r)))
  | .remove r =>
    match call.op with
    | .unregister d => some
      (if (sh.state.devices[d]?).any (·.ref = r.ref) then .ok (.remove d r, .ret .done)
      else .error (deviceNotFound d))
    | _ => none
  | .snapshotState =>
    some (.ok (.none, snapshotNext
      ⟨sh.state.started, sh.state.revision, [], sh.state.subscriptions.live.length⟩
      (sh.state.devices.toList.map Prod.snd)))
  | .snapshotValues s r todo =>
    let state : DeviceState := ⟨r.definition, (sh.values r.ref).current⟩
    some (.ok (.none, snapshotNext { s with devices := s.devices ++ [state] } todo))
  | .cancelState =>
    -- `cancel` borrows the subscription, so it runs only while there is one
    match call.op with
    | .cancel topic id =>
      if sh.state.dropped topic id then none else some (.ok (.cancel topic id, .ret .done))
    | _ => none

/-! ## Effects -/

/-- A change of the core state: everything that takes a revision. -/
inductive Change where
  | committed (r : RegisteredDevice) (c : Capability) (event : Event)
  | registered (revision : Nat) (r : RegisteredDevice) (current : Record)
  | unregistered (revision : Nat) (r : RegisteredDevice)

def Change.revision : Change → Nat
  | .committed _ _ event => event.revision
  | .registered n .. | .unregistered n .. => n

/-- What happened, for the history. -/
inductive Obs where
  | invoked (k : CallId) (call : Call)
  | returned (k : CallId) (outcome : Outcome)
  | abandoned (k : CallId)
  /-- the call took the command serial of its device -/
  | turn (k : CallId) (device : DeviceId) (capability : CapabilityId)
  | changed (change : Change)
  | states (entry : Entry Event RuntimeError)
  | topology (entry : Entry TopologyEvent RuntimeError)

def RuntimeState.bump (s : RuntimeState) : RuntimeState := { s with revision := s.revision + 1 }

/-- `dispatch_events`. -/
def dispatchEvents (s : RuntimeState) (event : Event) : RuntimeState :=
  { s with subscriptions := Broadcast.dispatch s.subscriptions .slowConsumer event }

/-- `dispatch_topology`. -/
def dispatchTopology (s : RuntimeState) (event : TopologyEvent) : RuntimeState :=
  { s with
    topologySubscriptions := Broadcast.dispatch s.topologySubscriptions .slowConsumer event }

/-- The event of a commit at the revision that follows `s`. -/
def commitEvent (s : RuntimeState) (d : DeviceId) (c : Capability) (v : Value) (now : Nat) : Event :=
  ⟨d, c.id, v, s.revision + 1, now⟩

def Effect.apply (sh : Shared) : Effect → Shared
  | .none => sh
  | .start => { sh with state := { sh.state with started := true } }
  | .stop => { sh with
      state := { sh.state with
        started := false
        devices := ∅
        subscriptions := Broadcast.closeAll sh.state.subscriptions .stopped
        topologySubscriptions := Broadcast.closeAll sh.state.topologySubscriptions .stopped } }
  | .save d record => { sh with store := Function.update sh.store d (some record) }
  | .update ref values => { sh with values := Function.update sh.values ref values }
  | .commit d _ c v now => { sh with
      state := if c.permissions.observe then
          dispatchEvents sh.state.bump (commitEvent sh.state d c v now)
        else sh.state.bump }
  | .insert r values => { sh with
      state := dispatchTopology
        { sh.state.bump with devices := sh.state.devices.insert r.definition.id r }
        ⟨sh.state.revision + 1⟩
      values := Function.update sh.values r.ref values
      nextRef := sh.nextRef + 1 }
  | .remove d _ => { sh with
      state := dispatchTopology
        { sh.state.bump with devices := sh.state.devices.erase d }
        ⟨sh.state.revision + 1⟩ }
  | .subscribe .states buffer => { sh with
      state := { sh.state with
        subscriptions := Broadcast.subscribe sh.state.subscriptions buffer } }
  | .subscribe .topology buffer => { sh with
      state := { sh.state with
        topologySubscriptions := Broadcast.subscribe sh.state.topologySubscriptions buffer } }
  | .cancel .states id => { sh with
      state := { sh.state with subscriptions := Broadcast.cancel sh.state.subscriptions id } }
  | .cancel .topology id => { sh with
      state := { sh.state with
        topologySubscriptions := Broadcast.cancel sh.state.topologySubscriptions id } }

def Effect.observe (sh : Shared) : Effect → List Obs
  | .none | .start | .save .. | .update .. => []
  | .stop =>
    (Broadcast.closeAllLog sh.state.subscriptions .stopped).map .states ++
      (Broadcast.closeAllLog sh.state.topologySubscriptions .stopped).map .topology
  | .commit d r c v now =>
    .changed (.committed r c (commitEvent sh.state d c v now)) ::
      (if c.permissions.observe then
        (Broadcast.dispatchLog sh.state.subscriptions .slowConsumer
          (commitEvent sh.state d c v now)).map .states
      else [])
  | .insert r values =>
    .changed (.registered (sh.state.revision + 1) r values.current) ::
      (Broadcast.dispatchLog sh.state.topologySubscriptions .slowConsumer
        ⟨sh.state.revision + 1⟩).map .topology
  | .remove _ r =>
    .changed (.unregistered (sh.state.revision + 1) r) ::
      (Broadcast.dispatchLog sh.state.topologySubscriptions .slowConsumer
        ⟨sh.state.revision + 1⟩).map .topology
  | .subscribe .states _ => [.states (.subscribed (sh.state.subscriptions.next + 1))]
  | .subscribe .topology _ => [.topology (.subscribed (sh.state.topologySubscriptions.next + 1))]
  | .cancel .states id => [.states (.cancelled id)]
  | .cancel .topology id => [.topology (.cancelled id)]

/-! ## The machine -/

inductive Thread where
  | running (call : Call) (pc : Pc)
  | returned (call : Call) (outcome : Outcome)
  | abandoned (call : Call)

def Thread.holds : Thread → List Lock
  | .running call pc => pc.holds call.op
  | _ => []

/-- A save whose caller is gone. -/
structure Orphan where
  device : DeviceId
  record : Record
  saved : Except String Unit

structure Sys where
  shared : Shared
  calls : Std.ExtTreeMap CallId Thread
  orphans : List Orphan
  history : List Obs

inductive Action where
  /-- a caller makes a call -/
  | invoke (k : CallId) (call : Call)
  /-- the call runs to its next await point -/
  | advance (k : CallId)
  /-- the caller drops the call at its await point -/
  | abandon (k : CallId)
  /-- the blocking task of an abandoned save finishes -/
  | orphan (i : Nat)
  /-- a subscriber reads, is dropped, or the clean-up of a dropped one runs -/
  | recv (topic : Topic) (id : Nat)
  | drop (topic : Topic) (id : Nat)
  | cleanup (topic : Topic) (id : Nat)

/-- No call holds a lock that excludes `l`. -/
def Sys.free (s : Sys) (l : Lock) : Bool :=
  s.calls.toList.all fun p => p.2.holds.all fun l' => !l.excludes l'

def Sys.ready (s : Sys) (call : Call) (pc : Pc) : Bool :=
  match pc.needs call.op with
  | none => true
  | some l => s.free l

/-- The save that goes on without its caller. -/
def orphaned (call : Call) : Pc → List Orphan
  | .saving _ _ _ next => match call.op.target with
    | some (d, _) => [⟨d, next, call.saved⟩]
    | none => []
  | .savingInitial values => match call.op with
    | .register d _ => [⟨d.id, values.persisted, call.saved⟩]
    | _ => []
  | _ => []

/-- The code of a call before its first await point. -/
def begin (call : Call) : Except RuntimeError Pc :=
  match call.op with
  | .register d handler =>
    match d.validate with
    | .error e => .error (.invalidValue (.model e))
    | .ok () => match missingHandler d handler with
      | some e => .error e
      | none => .ok .lifecycle
  | .subscribe buffer | .subscribeTopology buffer =>
    if 1 ≤ buffer ∧ buffer ≤ maxSubscriptionBuffer then .ok .lifecycle
    else .error .invalidSubscriptionBuffer
  | .snapshot => .ok .snapshotState
  | .cancel .. => .ok .cancelState
  | _ => .ok .lifecycle

/-- A step of call `k` that ends at another await point or returns. -/
def Sys.settle (s : Sys) (k : CallId) (call : Call) (effect : Effect) (turn : List Obs) : Next → Sys
  | .goto pc =>
    { s with
      shared := effect.apply s.shared
      calls := s.calls.insert k (.running call pc)
      history := s.history ++ effect.observe s.shared ++ turn }
  | .ret reply =>
    { s with
      shared := effect.apply s.shared
      calls := s.calls.insert k (.returned call (.ok reply))
      history := s.history ++ effect.observe s.shared ++ [.returned k (.ok reply)] }

def Sys.fail (s : Sys) (k : CallId) (call : Call) (e : RuntimeError) : Sys :=
  { s with
    calls := s.calls.insert k (.returned call (.error e))
    history := s.history ++ [.returned k (.error e)] }

/-- A call that takes its device's command serial for a command or a publication. -/
def turnOf (k : CallId) (op : Op) : Pc → List Obs
  | .commandSerial .. => (op.target.map fun (d, c) => .turn k d c).toList
  | _ => []

/-- A subscriber's operation on its hub. -/
def Sys.subscriber (s : Sys) (topic : Topic) (eventOp : Broadcast.Op Event RuntimeError)
    (topologyOp : Broadcast.Op TopologyEvent RuntimeError) : Option Sys :=
  match topic with
  | .states => (Broadcast.step s.shared.state.subscriptions eventOp).map fun (hub, log) =>
      { s with
        shared := { s.shared with state := { s.shared.state with subscriptions := hub } }
        history := s.history ++ log.map .states }
  | .topology => (Broadcast.step s.shared.state.topologySubscriptions topologyOp).map
      fun (hub, log) =>
        { s with
          shared := { s.shared with
            state := { s.shared.state with topologySubscriptions := hub } }
          history := s.history ++ log.map .topology }

def step (s : Sys) : Action → Option Sys
  | .invoke k call =>
    if k ∈ s.calls then none
    else
      let s : Sys := { s with history := s.history ++ [Obs.invoked k call] }
      some (match begin call with
        | .error e => s.fail k call e
        | .ok pc => { s with calls := s.calls.insert k (.running call pc) })
  | .advance k =>
    match s.calls[k]? with
    | some (.running call pc) =>
      if s.ready call pc then
        (body s.shared call pc).map fun
          | .error e => s.fail k call e
          | .ok (effect, next) => s.settle k call effect (turnOf k call.op pc) next
      else none
    | _ => none
  | .abandon k =>
    match s.calls[k]? with
    | some (.running call pc) => some
      { s with
        calls := s.calls.insert k (.abandoned call)
        orphans := s.orphans ++ orphaned call pc
        history := s.history ++ [.abandoned k] }
    | _ => none
  | .orphan i =>
    match s.orphans[i]? with
    | some o => some
      { s with
        shared := match o.saved with
          | .ok () => (Effect.save o.device o.record).apply s.shared
          | .error _ => s.shared
        orphans := s.orphans.eraseIdx i }
    | none => none
  | .recv topic id => s.subscriber topic (.recv id) (.recv id)
  | .drop topic id => s.subscriber topic (.drop id) (.drop id)
  | .cleanup topic id => s.subscriber topic (.remove id) (.remove id)

abbrev run : Sys → List Action → Option Sys := Machine.run step

/-- A runtime as `Runtime::new` leaves it, over a store that holds `store`. -/
def Sys.new (persistent : Bool) (store : DeviceId → Option Record) : Sys where
  shared :=
    { persistent
      state := ⟨false, ∅, Broadcast.empty, Broadcast.empty, 0⟩
      values := fun _ => ⟨∅, ∅⟩
      nextRef := 0
      store }
  calls := ∅
  orphans := []
  history := []

/-- A call made and advanced with no other call in between. -/
def alone (k : CallId) (call : Call) (steps : Nat) : List Action :=
  .invoke k call :: List.replicate steps (.advance k)

/-! ## A lamp, for the witnesses of the later modules -/

def lampOn : Capability :=
  ⟨⟨"on", validateIdentifier_on⟩, lightOn, "On", .bool, ⟨true, true, true⟩, .bool false⟩

def lamp : Device := ⟨⟨"lamp", by decide⟩, "Lamp", "", "", [lampOn]⟩

def publishLamp (value : Bool) : Call := { op := .publish lamp.id lampOn.id (.bool value) }

/-- A started runtime over an empty store in which the lamp is registered. -/
def lampStart : List Action :=
  alone 0 { op := .start } 2 ++ alone 1 { op := .register lamp true } 5

end Oikade.Core
