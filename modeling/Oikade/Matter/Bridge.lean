/-
  The bridge state (`oikade-matter-adapter/src/bridge/state.rs`) and the sync and event requests of
  `handle_request` (`src/rpc.rs`).

  `Projection.event` is what `update_event` does to the projection that it has found. Which events
  succeed depends only on the parts of a projection that no event changes (`Projection.shape`), so
  a sequence of events succeeds exactly when each event would (`handleEvents_ok`).

  The core accepts every finite number for a temperature or a humidity, the bridge only those that
  a Matter sensor can show: the events after an accepted sync all succeed exactly when their values
  are `showable` (`events_succeed_iff`).

  `handle_request` also tells the runtime task about changes. The channel to it is open as long as
  the request loop runs (the two are joined by `select`), so these sends do not fail here. The
  dynamic metadata of `replace` and the data versions are left out: no request reads them.
-/
import Oikade.Matter.Refs

namespace Oikade.Matter

open Adapter (Capability Device DeviceState SyncRequest EventRequest Diagnostic)

/-! ## Events -/

inductive Cluster where
  | onOff
  | level
  | temperature
  | humidity
  | contact
  | occupancy
  deriving DecidableEq, Repr

/-- The attribute of a change: the measured value of a sensor has number 0. -/
inductive Attribute where
  | onOff
  | currentLevel
  | zero
  deriving DecidableEq, Repr

structure Change where
  endpoint : Nat
  cluster : Cluster
  attr : Attribute
  deriving DecidableEq, Repr

inductive EventError where
  /-- "not_found" -/
  | notFound
  /-- "invalid_value" -/
  | invalidValue
  deriving DecidableEq, Repr

/-- `old != Some(next)` for numbers. -/
def numberChanged (old : Option Float64) (next : Float64) : Bool :=
  !old.any fun v => v.eq next

/-- `update_event` on the projection that it found. -/
def Projection.event (p : Projection) (capabilityId : String) (value : WireValue) :
    Except EventError (Option Change × Projection) :=
  if capabilityId = p.primaryCapabilityId then
    match p.profile with
    | .onOffLight | .dimmableLight | .outlet =>
      match wireBool value with
      | none => .error .invalidValue
      | some next =>
        .ok (if p.on ≠ some next then some ⟨p.endpoint, .onOff, .onOff⟩ else none,
          { p with on := some next })
    | .temperature | .humidity =>
      match (wireNumber value).filter Float64.isFinite with
      | none => .error .invalidValue
      | some next =>
        let valid := match p.profile with
          | .temperature => Float64.inRange temperatureMinimum temperatureMaximum next
          | _ => Float64.inRange percentMinimum percentMaximum next
        let cluster : Cluster := if p.profile = .temperature then .temperature else .humidity
        if valid then
          .ok (if numberChanged p.sensor next then some ⟨p.endpoint, cluster, .zero⟩ else none,
            { p with sensor := some next })
        else .error .invalidValue
    | .contact | .occupancy =>
      match wireBool value with
      | none => .error .invalidValue
      | some next =>
        let cluster : Cluster := if p.profile = .contact then .contact else .occupancy
        .ok (if p.binarySensor ≠ some next then some ⟨p.endpoint, cluster, .zero⟩ else none,
          { p with binarySensor := some next })
  else if p.levelCapabilityId = some capabilityId then
    match (wireNumber value).filter inPercent with
    | none => .error .invalidValue
    | some next =>
      .ok (if numberChanged p.level next then some ⟨p.endpoint, .level, .currentLevel⟩ else none,
        { p with level := some next })
  else .error .notFound

structure BridgeState where
  projections : ProjectionSet

namespace BridgeState

def new : BridgeState := ⟨.default⟩

def replace (projections : List Projection) : BridgeState := ⟨.replace projections⟩

def updateEvent (bridge : BridgeState) (deviceId capabilityId : String) (value : WireValue) :
    Except EventError (Option Change) × BridgeState :=
  match bridge.projections.byCapability (deviceId, capabilityId) with
  | none => (.error .notFound, bridge)
  | some endpoint =>
    match bridge.projections.endpoint endpoint with
    | none => (.error .notFound, bridge)
    | some projection =>
      match projection.event capabilityId value with
      | .error e => (.error e, bridge)
      | .ok (change, projection') => (.ok change, ⟨bridge.projections.write endpoint projection'⟩)

def on (bridge : BridgeState) (endpoint : Nat) : Option Bool :=
  (bridge.projections.endpoint endpoint).bind Projection.on

def level (bridge : BridgeState) (endpoint : Nat) : Option Float64 :=
  (bridge.projections.endpoint endpoint).bind Projection.level

def applyOn (bridge : BridgeState) (endpoint : Nat) (value : Bool) : BridgeState :=
  match bridge.projections.endpoint endpoint with
  | none => bridge
  | some projection => ⟨bridge.projections.write endpoint { projection with on := some value }⟩

def applyLevel (bridge : BridgeState) (endpoint : Nat) (value : Float64) : BridgeState :=
  match bridge.projections.endpoint endpoint with
  | none => bridge
  | some projection => ⟨bridge.projections.write endpoint { projection with level := some value }⟩

end BridgeState

/-! ## Requests -/

structure RpcFailure where
  code : String
  message : String
  deriving DecidableEq, Repr

structure SyncResponse where
  generation : Nat
  devices : Nat
  projections : List ProjectionRef
  diagnostics : List Diagnostic
  deriving DecidableEq, Repr

def SyncError.failure : SyncError → RpcFailure
  | .capacity required =>
    ⟨"capacity_exceeded", "Matter projection requires " ++ toString required ++
      " endpoints; bridge capacity is " ++ toString maxDynamicEndpoints⟩
  | .persistence message => ⟨"projection_failed", "persist endpoint projection: " ++ message⟩

/-- `METHOD_SYNC` -/
def handleSync (builder : ProjectionBuilder) (bridge : BridgeState) (saved : Except String Unit)
    (request : SyncRequest) : Except RpcFailure SyncResponse × ProjectionBuilder × BridgeState :=
  match builder.build saved request.devices with
  | (.error e, builder') => (.error e.failure, builder', bridge)
  | (.ok built, builder') =>
    (.ok ⟨request.generation, request.devices.length, built.refs, built.diagnostics⟩, builder',
      .replace built.result)

def EventError.failure : EventError → RpcFailure
  | .notFound => ⟨"not_found", "projected capability was not found"⟩
  | .invalidValue => ⟨"invalid_value", "event value has the wrong kind or range"⟩

/-- `METHOD_EVENT` -/
def handleEvent (bridge : BridgeState) (request : EventRequest) :
    Except RpcFailure Unit × BridgeState :=
  if request.deviceId.isEmpty || request.capabilityId.isEmpty then
    (.error ⟨"invalid_request", "device and capability IDs are required"⟩, bridge)
  else
    match bridge.updateEvent request.deviceId request.capabilityId request.value with
    | (.ok _, bridge') => (.ok (), bridge')
    | (.error e, bridge') => (.error e.failure, bridge')

theorem handleSync_ok {builder builder' : ProjectionBuilder} {bridge bridge' : BridgeState}
    {saved : Except String Unit} {request : SyncRequest} {response : SyncResponse}
    (h : handleSync builder bridge saved request = (.ok response, builder', bridge')) :
    ∃ built, builder.build saved request.devices = (.ok built, builder') ∧
      response.projections = built.refs ∧ bridge' = .replace built.result := by
  unfold handleSync at h
  split at h
  · simp at h
  · rename_i built b hb
    cases h
    exact ⟨built, hb, rfl, rfl⟩

/-- The responses to event requests that arrive one after the other. -/
def handleEvents : BridgeState → List EventRequest → List (Except RpcFailure Unit)
  | _, [] => []
  | bridge, request :: requests =>
    let (response, bridge') := handleEvent bridge request
    response :: handleEvents bridge' requests

/-! ## Which events succeed -/

/-- What no event changes. -/
def Projection.shape (p : Projection) : Projection :=
  { p with on := none, level := none, sensor := none, binarySensor := none }

/-- The values that a projection takes for one of its capabilities. -/
def Projection.takes (p : Projection) (capabilityId : String) (value : WireValue) : Bool :=
  if capabilityId = p.primaryCapabilityId then
    match p.profile with
    | .temperature => (wireNumber value).any inTemperature
    | .humidity => (wireNumber value).any inPercent
    | _ => (wireBool value).isSome
  else p.levelCapabilityId = some capabilityId && (wireNumber value).any inPercent

theorem takes_shape (p : Projection) (id : String) (value : WireValue) :
    p.shape.takes id value = p.takes id value := rfl

/-- An event succeeds exactly when the projection takes the value, and changes values only. -/
theorem event_spec (p : Projection) (id : String) (value : WireValue) :
    (p.takes id value = true ∧ ∃ change p', p.event id value = .ok (change, p') ∧
      p'.shape = p.shape) ∨ (p.takes id value = false ∧ ∃ e, p.event id value = .error e) := by
  unfold Projection.takes Projection.event
  by_cases hid : id = p.primaryCapabilityId
  · simp only [hid, if_true]
    cases hprof : p.profile with
    | onOffLight | dimmableLight | outlet | contact | occupancy =>
      cases wireBool value with
      | none => simp
      | some v => simp [Projection.shape, hprof]
    | temperature =>
      cases wireNumber value with
      | none => simp
      | some v =>
        cases hf : v.isFinite <;>
          cases hr : Float64.inRange temperatureMinimum temperatureMaximum v <;>
          simp [inTemperature, Option.filter, Projection.shape, hprof, hf, hr]
    | humidity =>
      cases wireNumber value with
      | none => simp
      | some v =>
        cases hf : v.isFinite <;>
          cases hr : Float64.inRange percentMinimum percentMaximum v <;>
          simp [inPercent, Option.filter, Projection.shape, hprof, hf, hr]
  · simp only [hid, if_false]
    by_cases hl : p.levelCapabilityId = some id
    · cases wireNumber value with
      | none => simp [hl]
      | some v => cases hr : inPercent v <;> simp [hl, hr, Option.filter, Projection.shape]
    · simp [hl]

/-- Two bridges that differ in values only. -/
def BridgeState.Alike (b b' : BridgeState) : Prop :=
  b'.projections.byCapability = b.projections.byCapability ∧
    ∀ e, (b'.projections.byEndpoint e).map Projection.shape =
      (b.projections.byEndpoint e).map Projection.shape

theorem BridgeState.Alike.refl (b : BridgeState) : b.Alike b := ⟨rfl, fun _ => rfl⟩

theorem BridgeState.Alike.trans {b b' b'' : BridgeState} (h : b.Alike b') (h' : b'.Alike b'') :
    b.Alike b'' := ⟨h'.1.trans h.1, fun e => (h'.2 e).trans (h.2 e)⟩

/-- The bridge takes the value for the capability. -/
def BridgeState.takes (b : BridgeState) (deviceId capabilityId : String) (value : WireValue) :
    Bool :=
  (b.projections.find deviceId capabilityId).any fun p => p.takes capabilityId value

theorem BridgeState.takes_of_alike {b b' : BridgeState} (h : b.Alike b') (d id : String)
    (value : WireValue) : b'.takes d id value = b.takes d id value := by
  have htakes : ∀ x : BridgeState, x.takes d id value =
      (((x.projections.byCapability (d, id)).bind fun e =>
        (x.projections.byEndpoint e).map Projection.shape).any fun p => p.takes id value) := by
    intro x
    unfold BridgeState.takes ProjectionSet.find
    cases x.projections.byCapability (d, id) with
    | none => rfl
    | some e => cases hx : x.projections.byEndpoint e <;> simp [hx, takes_shape]
  rw [htakes, htakes, h.1, funext h.2]

theorem BridgeState.write_alike {b : BridgeState} {e : Nat} {p p' : Projection}
    (hp : b.projections.byEndpoint e = some p) (h : p'.shape = p.shape) :
    b.Alike ⟨b.projections.write e p'⟩ := by
  refine ⟨rfl, fun e' => ?_⟩
  simp only [ProjectionSet.write, Function.update_apply]
  split
  · rename_i he
    subst he
    simp [hp, h]
  · rfl

theorem BridgeState.updateEvent_spec (b : BridgeState) (d id : String) (value : WireValue) :
    ((∃ change, (b.updateEvent d id value).1 = .ok change) ↔ b.takes d id value = true) ∧
      b.Alike (b.updateEvent d id value).2 := by
  unfold BridgeState.updateEvent BridgeState.takes ProjectionSet.find ProjectionSet.endpoint
  cases hc : b.projections.byCapability (d, id) with
  | none => exact ⟨by simp, Alike.refl b⟩
  | some e =>
    cases he : b.projections.byEndpoint e with
    | none =>
      simp only [he]
      exact ⟨by simp [he], Alike.refl b⟩
    | some p =>
      rcases event_spec p id value with ⟨ht, change, p', hev, hshape⟩ | ⟨ht, err, hev⟩
      · simp only [he, hev]
        exact ⟨by simp [he, ht], write_alike he hshape⟩
      · simp only [he, hev]
        exact ⟨by simp [he, ht], Alike.refl b⟩

theorem handleEvent_spec {request : EventRequest} (hd : request.deviceId.isEmpty = false)
    (hc : request.capabilityId.isEmpty = false) (b : BridgeState) :
    ((handleEvent b request).1 = .ok () ↔
      b.takes request.deviceId request.capabilityId request.value = true) ∧
      b.Alike (handleEvent b request).2 := by
  obtain ⟨hok, halike⟩ := b.updateEvent_spec request.deviceId request.capabilityId request.value
  unfold handleEvent
  simp only [hd, hc, Bool.or_self, Bool.false_eq_true, if_false]
  cases hu : b.updateEvent request.deviceId request.capabilityId request.value with
  | mk r b' =>
    rw [hu] at hok halike
    cases r with
    | ok change => exact ⟨by simpa using hok, halike⟩
    | error e => exact ⟨by simpa using hok, halike⟩

/-- A sequence of events succeeds exactly when the bridge takes each of the values. -/
theorem handleEvents_ok {events : List Core.Event} {b b' : BridgeState} (h : b.Alike b') :
    (∀ r ∈ handleEvents b' (events.map Adapter.eventRequest), r = .ok ()) ↔
      ∀ e ∈ events, b.takes e.deviceId.asStr e.capabilityId.asStr (Adapter.valueToApi e.value) =
        true := by
  induction events generalizing b' with
  | nil => simp [handleEvents]
  | cons e events ih =>
    obtain ⟨hok, halike⟩ := @handleEvent_spec (Adapter.eventRequest e)
      e.deviceId.checks.1 e.capabilityId.checks.1 b'
    have hnext : b.Alike (handleEvent b' (Adapter.eventRequest e)).2 := h.trans halike
    rw [BridgeState.takes_of_alike h] at hok
    rw [List.map_cons, List.forall_mem_cons]
    unfold handleEvents
    rw [List.forall_mem_cons, ih hnext]
    exact and_congr_left fun _ => hok

/-! ## Events of the core -/

/-- What a Matter sensor can show of a value that the core accepts. -/
def showable (c : Core.Capability) (value : Core.Value) : Bool :=
  match value with
  | .number n =>
    if c.capabilityType = Core.temperature then inTemperature n
    else if c.capabilityType = Core.relativeHumidity then inPercent n
    else true
  | _ => true

/-- The profile of a projection tells whether the capability is a sensor for numbers. -/
theorem selectValue_profile {w : DeviceState} {c : Capability} {m : Mapped} {value : WireValue}
    {selected : Selected} (h : (selectValue w c m value).2 = some selected) :
    (selected.profile = .temperature ↔ m = .temperature) ∧
      (selected.profile = .humidity ↔ m = .humidity) := by
  unfold selectValue at h
  split at h
  case h_2 =>
    split at h
    · split at h <;>
      · cases Option.some.inj h
        simp
    · simp at h
  all_goals
    split at h
    · cases Option.some.inj h
      simp
    · simp at h

/-- A primary capability that is no such sensor takes every truth value. -/
theorem takes_bool {p : Projection} (ht : p.profile ≠ .temperature) (hh : p.profile ≠ .humidity)
    (value : WireValue) : p.takes p.primaryCapabilityId value = (wireBool value).isSome := by
  unfold Projection.takes
  rw [if_pos rfl]
  cases hp : p.profile <;> first | rfl | exact absurd hp (by assumption)

section Showable

variable {c : Core.Capability} {value : Core.Value}
  (hv : Core.validateCapabilityValue c value = .ok ())

include hv

theorem validateValue_of_lookup {b : Core.BuiltinCapability}
    (hb : Core.lookupBuiltinCapability c.capabilityType = some b) :
    b.validateValue value = .ok () := by
  simp only [Core.validateCapabilityValue, hb] at hv
  cases h : b.validateValue value with
  | ok u => rfl
  | error err => simp [h, Except.mapError] at hv

theorem takes_primary {w : DeviceState} {selected : Selected} (e : Nat)
    (h : (select w (Adapter.capabilityToApi c)).2 = some selected) :
    (selected.projection w.device (Adapter.capabilityToApi c) e).takes c.id.asStr
      (Adapter.valueToApi value) = showable c value := by
  obtain ⟨-, m, v₀, hm, -, -, hsel⟩ := select_some h
  obtain ⟨htemp, hhum⟩ := selectValue_profile hsel
  have htype : c.capabilityType = m.builtin.capabilityType :=
    Core.Identifier.ext' (Mapped.ofType_some hm)
  obtain ⟨hkind, -⟩ := Core.BuiltinCapability.validateValue_ok
    (validateValue_of_lookup hv (Mapped.lookup hm))
  have hbool : ∀ b, value = .bool b → selected.profile ≠ .temperature →
      selected.profile ≠ .humidity →
      (selected.projection w.device (Adapter.capabilityToApi c) e).takes c.id.asStr
        (Adapter.valueToApi value) = showable c value := by
    rintro b rfl ht hh
    exact takes_bool (p := selected.projection w.device (Adapter.capabilityToApi c) e) ht hh _
  have hnumber : ∀ n, (wireNumber (Adapter.valueToApi (.number n))) = some n := fun n => rfl
  cases m with
  | temperature =>
    obtain ⟨n, rfl⟩ : ∃ n, value = .number n := by
      cases value <;> simp [Core.Value.kind, Mapped.builtin] at hkind ⊢
    have hp : selected.profile = .temperature := htemp.mpr rfl
    simp [Projection.takes, Selected.projection, Adapter.capabilityToApi, hp, hnumber, showable,
      htype, Mapped.builtin]
  | humidity =>
    obtain ⟨n, rfl⟩ : ∃ n, value = .number n := by
      cases value <;> simp [Core.Value.kind, Mapped.builtin] at hkind ⊢
    have hp : selected.profile = .humidity := hhum.mpr rfl
    have hne : Core.relativeHumidity ≠ Core.temperature := by decide
    simp [Projection.takes, Selected.projection, Adapter.capabilityToApi, hp, hnumber, showable,
      htype, Mapped.builtin, hne]
  | switchOn | lightOn | outletOn | contactOpen | occupancy =>
    obtain ⟨b, hb⟩ : ∃ b, value = .bool b := by
      cases value <;> simp [Core.Value.kind, Mapped.builtin] at hkind ⊢
    exact hbool b hb (by simp [htemp]) (by simp [hhum])

/-- A level that the core accepts is a percentage. -/
theorem takes_level (hc : c.capabilityType = Core.lightLevel) {p : Projection}
    (hl : p.levelCapabilityId = some c.id.asStr) (hne : c.id.asStr ≠ p.primaryCapabilityId) :
    p.takes c.id.asStr (Adapter.valueToApi value) = true ∧ showable c value = true := by
  have hb : Core.lookupBuiltinCapability c.capabilityType =
      some ⟨Core.lightLevel, .number, .actuator⟩ := by rw [hc]; decide
  obtain ⟨hkind, hrange⟩ := Core.BuiltinCapability.validateValue_ok (validateValue_of_lookup hv hb)
  obtain ⟨n, rfl⟩ : ∃ n, value = .number n := by
    cases value <;> simp [Core.Value.kind] at hkind ⊢
  obtain ⟨hfin, hr⟩ := hrange n rfl
  have hn : inPercent n = true := by
    rw [inPercent, hfin, Bool.true_and]
    exact hr rfl
  constructor
  · simp [Projection.takes, hne, hl, wireNumber, Adapter.valueToApi, Core.Value.kind,
      Core.ValueKind.asStr, hn]
  · have h1 : Core.lightLevel ≠ Core.temperature := by decide
    have h2 : Core.lightLevel ≠ Core.relativeHumidity := by decide
    simp [showable, hc, h1, h2]

end Showable

/-- The capability of the request that an event is about. -/
def capabilityOf (states : List Core.DeviceState) (event : Core.Event) : Option Core.Capability :=
  (states.find? fun s => s.device.id = event.deviceId).bind fun s =>
    s.device.capabilities.find? fun c => c.id = event.capabilityId

theorem capabilityOf_some {states : List Core.DeviceState} {event : Core.Event}
    {c : Core.Capability} (h : capabilityOf states event = some c) :
    ∃ s ∈ states, s.device.id = event.deviceId ∧ c ∈ s.device.capabilities ∧
      c.id = event.capabilityId := by
  obtain ⟨s, hs, hc⟩ := Option.bind_eq_some_iff.mp h
  refine ⟨s, List.mem_of_find?_eq_some hs, by simpa using List.find?_some hs,
    List.mem_of_find?_eq_some hc, by simpa using List.find?_some hc⟩

/-- After a sync with references that are named once, each of them is found with its item. -/
theorem find_item {devices : List DeviceState} (hd : (devices.map fun w => w.device.id).Nodup)
    (hp : ∀ w ∈ devices, Proper w) {builder builder' : ProjectionBuilder}
    {saved : Except String Unit} {built : BuiltProjection}
    (h : builder.build saved devices = (.ok built, builder')) (hnd : built.refs.Nodup)
    {r : ProjectionRef} (hr : r ∈ built.refs) :
    ∃ i ∈ items devices, (ProjectionSet.replace built.result).find r.deviceId r.capabilityId =
        some (i.projection builder'.mappings) ∧ i.state.device.id = r.deviceId ∧
      (r.capabilityId = i.capability.id ∨ i.selected.levelId = some r.capabilityId) := by
  obtain ⟨hresult, hrefs, hkeys⟩ := build_ok h
  have hends : (built.result.map Projection.endpoint).Nodup := by
    rw [hresult]
    exact endpoints_nodup hd hp hkeys
  have hr' := hr
  rw [hrefs] at hr'
  obtain ⟨p, hmem, hr'⟩ := List.mem_flatMap.mp hr'
  obtain ⟨hdev, hid⟩ := mem_refs.mp hr'
  have hfind := (replace_find hends (hrefs ▸ hnd) hmem).2 _ hid
  rw [hresult] at hmem
  obtain ⟨i, hi, rfl⟩ := List.mem_map.mp hmem
  refine ⟨i, hi, hdev ▸ hfind, hdev, ?_⟩
  simpa [Projection.capabilityIds, Item.projection, Selected.projection] using hid

section Sync

variable {states : List Core.DeviceState} {devices : List DeviceState} (hs : Sendable states)
  (hreq : states.mapM Adapter.deviceState = .ok devices)

include hs hreq

/-- After an accepted sync the bridge takes what it can show of the values the core accepts. -/
theorem takes_iff_showable {builder builder' : ProjectionBuilder} {saved : Except String Unit}
    {built : BuiltProjection} (h : builder.build saved devices = (.ok built, builder'))
    (hnd : built.refs.Nodup) {event : Core.Event} {c : Core.Capability}
    (hr : ⟨event.deviceId.asStr, event.capabilityId.asStr⟩ ∈ built.refs)
    (hc : capabilityOf states event = some c)
    (hv : Core.validateCapabilityValue c event.value = .ok ()) :
    (BridgeState.replace built.result).takes event.deviceId.asStr event.capabilityId.asStr
      (Adapter.valueToApi event.value) = showable c event.value := by
  obtain ⟨hd, hp⟩ := proper_of_sendable hs hreq
  obtain ⟨s, hsm, hsid, hcs, hcid⟩ := capabilityOf_some hc
  obtain ⟨i, hi, hfind, hdev, hid⟩ := find_item hd hp h hnd hr
  obtain ⟨hw, -, hcap, hsel⟩ := mem_items.mp hi
  -- The item is one of the device of the event.
  obtain ⟨w, hwm, hsw⟩ := Fallible.mapM_mem_left hreq hsm
  have hwdev := Adapter.deviceState_device hsw
  have hstate : i.state = w := by
    refine List.inj_on_of_nodup_map hd hw hwm ?_
    rw [hdev, hwdev, ← hsid]
    rfl
  have hmem : Adapter.capabilityToApi c ∈ i.state.device.capabilities := by
    rw [hstate, hwdev]
    exact List.mem_map_of_mem hcs
  have htakes : (BridgeState.replace built.result).takes event.deviceId.asStr
      event.capabilityId.asStr (Adapter.valueToApi event.value) =
      (i.projection builder'.mappings).takes event.capabilityId.asStr
        (Adapter.valueToApi event.value) := by
    simp [BridgeState.takes, BridgeState.replace, hfind]
  rw [htakes, ← hcid]
  have hprim : ∀ y : Selected, (select i.state i.capability).2 = some y →
      y.levelId ≠ some i.capability.id := fun y hy =>
    primary_ne_level (hp _ hw) hcap hsel hy
  rcases hid with hid | hid
  · have hceq : i.capability = Adapter.capabilityToApi c :=
      capability_eq (hp _ hw) hcap hmem (by rw [← hid, ← hcid]; rfl)
    unfold Item.projection
    rw [hceq] at hsel ⊢
    exact takes_primary hv _ hsel
  · obtain ⟨-, -, cap, -, hlev, -, -, hlid, -⟩ := select_level hsel hid
    obtain ⟨hlm, hlt⟩ := mem_ofType hlev
    have hceq : cap = Adapter.capabilityToApi c :=
      capability_eq (hp _ hw) hlm hmem (by rw [hlid, ← hcid]; rfl)
    have hctype : c.capabilityType = Core.lightLevel := by
      rw [hceq] at hlt
      exact Core.Identifier.ext' hlt
    rw [← hcid] at hid
    have hne : c.id.asStr ≠ i.capability.id := fun he => hprim _ hsel (he ▸ hid)
    obtain ⟨h1, h2⟩ := takes_level (p := i.projection builder'.mappings) hv hctype hid hne
    rw [h1, h2]

end Sync

/-- The events after an accepted sync all succeed exactly when each of their values can be shown:
    a temperature from -273.15 to 327.66, a humidity from 0 to 100. -/
theorem events_succeed_iff {snapshot : Core.Snapshot} {generation : Nat} {request : SyncRequest}
    (hs : Sendable snapshot.devices) (hreq : Adapter.syncRequest snapshot generation = .ok request)
    {builder builder' : ProjectionBuilder} {bridge bridge' : BridgeState}
    {saved : Except String Unit} {response : SyncResponse}
    (hsync : handleSync builder bridge saved request = (.ok response, builder', bridge'))
    {keys : Adapter.ProjectionKeys}
    (hacc : Adapter.acceptedProjectionKeys (some response.projections)
      (Adapter.projectionKeys request.devices) = .ok keys)
    {events : List Core.Event}
    (hev : ∀ e ∈ events, Adapter.contains keys e = true ∧
      ∃ c, capabilityOf snapshot.devices e = some c ∧
        Core.validateCapabilityValue c e.value = .ok ()) :
    (∀ r ∈ handleEvents bridge' (events.map Adapter.eventRequest), r = .ok ()) ↔
      ∀ e ∈ events, ∀ c, capabilityOf snapshot.devices e = some c → showable c e.value = true := by
  obtain ⟨-, devices, hdevices, rfl⟩ := Adapter.syncRequest_ok.mp hreq
  obtain ⟨built, hbuild, hrefs, rfl⟩ := handleSync_ok hsync
  rw [hrefs] at hacc
  have hnd := (Adapter.acceptedProjectionKeys_ok.mp ⟨keys, hacc⟩).2
  rw [handleEvents_ok (BridgeState.Alike.refl _)]
  refine forall₂_congr fun e he => ?_
  obtain ⟨hcont, c, hc, hv⟩ := hev e he
  have hr := (Adapter.contains_iff hacc e).mp hcont
  rw [takes_iff_showable hs hdevices hbuild hnd hr hc hv]
  simp [hc]

/-! ## A thermometer -/

def thermometer : Core.Capability :=
  ⟨⟨"temperature", by decide⟩, Core.temperature, "Temperature", .number, ⟨true, false, true⟩,
    .number ⟨0x4035800000000000#64⟩⟩

def cellar : Core.DeviceState := initialState ⟨"cellar", by decide⟩ "Cellar" [thermometer]

def cellarSnapshot : Core.Snapshot := ⟨true, 1, [cellar], 0⟩

def cellarRequest : SyncRequest :=
  ⟨1, 1, [⟨Adapter.deviceToApi cellar.device,
    [⟨"temperature", Adapter.valueToApi thermometer.initialValue⟩]⟩]⟩

def cellarResponse : SyncResponse := ⟨1, 1, [⟨"cellar", "temperature"⟩], []⟩

/-- The bridge after the sync. -/
def cellarBridge : BridgeState := (handleSync ⟨.default⟩ .new (.ok ()) cellarRequest).2.2

theorem cellar_synced : ∃ builder', handleSync ⟨.default⟩ .new (.ok ()) cellarRequest =
    (.ok cellarResponse, builder', cellarBridge) := by
  have h : (handleSync ⟨.default⟩ .new (.ok ()) cellarRequest).1 = .ok cellarResponse := by
    decide +kernel
  exact ⟨_, by rw [← h, cellarBridge]⟩

theorem cellar_accepted : ∃ keys,
    Adapter.acceptedProjectionKeys (some cellarResponse.projections)
      (Adapter.projectionKeys cellarRequest.devices) = .ok keys :=
  Adapter.acceptedProjectionKeys_ok.mpr (by decide)

/-- The cellar reports a temperature. -/
def reading (bits : BitVec 64) : Core.Event :=
  ⟨cellar.device.id, thermometer.id, .number ⟨bits⟩, 2, 0⟩

theorem events_succeed_cellar : Adapter.syncRequest cellarSnapshot 1 = .ok cellarRequest ∧
    (∃ builder', handleSync ⟨.default⟩ .new (.ok ()) cellarRequest =
      (.ok cellarResponse, builder', cellarBridge)) ∧
      -- 21.5 and -0.5 degrees
      ∀ r ∈ handleEvents cellarBridge ([reading 0x4035800000000000#64,
        reading 0xbfe0000000000000#64].map Adapter.eventRequest), r = .ok () := by
  have hs : Sendable cellarSnapshot.devices := ⟨by decide, by decide, by decide⟩
  have hreq : Adapter.syncRequest cellarSnapshot 1 = .ok cellarRequest := rfl
  obtain ⟨builder', hsync⟩ := cellar_synced
  obtain ⟨keys, hkeys⟩ := cellar_accepted
  refine ⟨hreq, ⟨builder', hsync⟩, (events_succeed_iff hs hreq hsync hkeys ?_).mpr ?_⟩
  · intro e he
    rw [Adapter.contains_iff hkeys]
    have hall : ∀ e ∈ [reading 0x4035800000000000#64, reading 0xbfe0000000000000#64],
        ⟨e.deviceId.asStr, e.capabilityId.asStr⟩ ∈ cellarResponse.projections ∧
          capabilityOf cellarSnapshot.devices e = some thermometer ∧
            Core.validateCapabilityValue thermometer e.value = .ok () := by decide +kernel
    exact ⟨(hall e he).1, thermometer, (hall e he).2⟩
  · intro e he c hc
    have hall : ∀ e ∈ [reading 0x4035800000000000#64, reading 0xbfe0000000000000#64],
        (capabilityOf cellarSnapshot.devices e).all fun c => showable c e.value := by
      decide +kernel
    simpa [hc] using hall e he

/-- At 400 degrees the core accepts the value and the bridge answers with an error. -/
theorem events_fail_cellar : Adapter.syncRequest cellarSnapshot 1 = .ok cellarRequest ∧
    (∃ builder', handleSync ⟨.default⟩ .new (.ok ()) cellarRequest =
      (.ok cellarResponse, builder', cellarBridge)) ∧
      (∃ keys, Adapter.acceptedProjectionKeys (some cellarResponse.projections)
        (Adapter.projectionKeys cellarRequest.devices) = .ok keys ∧
          Adapter.contains keys (reading 0x4079000000000000#64) = true) ∧
      capabilityOf cellarSnapshot.devices (reading 0x4079000000000000#64) = some thermometer ∧
      Core.validateCapabilityValue thermometer (reading 0x4079000000000000#64).value = .ok () ∧
        handleEvents cellarBridge [Adapter.eventRequest (reading 0x4079000000000000#64)] =
          [.error ⟨"invalid_value", "event value has the wrong kind or range"⟩] := by
  obtain ⟨keys, hkeys⟩ := cellar_accepted
  exact ⟨rfl, cellar_synced,
    ⟨keys, hkeys, (Adapter.contains_iff hkeys _).mpr (by decide)⟩, by decide, by decide,
    by decide +kernel⟩

end Oikade.Matter
