/-
  The Matter node: the endpoints that the bridge advertises and what a controller reads there.

  The list of endpoints is written by `replace` alone, while events, commands and labels change the
  projections behind it one at a time. `apply_cases` says which of the two an action does;
  `Projection.Fits` is what every change keeps of a projection. `node_served`: in every run each
  advertised endpoint still has its projection, so every attribute that a handler serves there is
  read without an error and within the bounds that are read beside it. `level_commands`: whatever
  level a controller asks for, when the host answers with the value that it was sent, this level is
  read afterwards.
-/
import Oikade.Matter.Effect
import Oikade.Matter.Endpoints
import Oikade.Matter.Level

namespace Oikade.Matter

open Adapter (DeviceState SyncRequest EventRequest)

/-! ## Metadata -/

structure DeviceType where
  dtype : Nat
  drev : Nat
  deriving DecidableEq, Repr

/-- The clusters of an endpoint: the descriptor is served by the Matter library. -/
inductive ClusterId where
  | descriptor
  | bridged
  | served (cluster : Cluster)
  deriving DecidableEq, Repr

structure Endpoint where
  id : Nat
  deviceTypes : List DeviceType
  clusters : List ClusterId
  deriving DecidableEq, Repr

def aggregatorEndpoint : Nat := 1

def devTypeAggregator : DeviceType := ⟨0x000e, 2⟩
def devTypeBridgedNode : DeviceType := ⟨0x0013, 1⟩
def devTypeOnOffLight : DeviceType := ⟨0x0100, 1⟩
def devTypeDimmableLight : DeviceType := ⟨0x0101, 1⟩
def devTypeOutlet : DeviceType := ⟨0x010a, 1⟩
def devTypeTemperature : DeviceType := ⟨0x0302, 1⟩
def devTypeHumidity : DeviceType := ⟨0x0307, 2⟩
def devTypeContact : DeviceType := ⟨0x0015, 2⟩
def devTypeOccupancy : DeviceType := ⟨0x0107, 4⟩

def aggregator : Endpoint := ⟨aggregatorEndpoint, [devTypeAggregator], [.descriptor]⟩

def Profile.deviceType : Profile → DeviceType
  | .onOffLight => devTypeOnOffLight
  | .dimmableLight => devTypeDimmableLight
  | .outlet => devTypeOutlet
  | .temperature => devTypeTemperature
  | .humidity => devTypeHumidity
  | .contact => devTypeContact
  | .occupancy => devTypeOccupancy

/-- The clusters of a profile beside the descriptor and the bridged device information. -/
def Profile.clusters : Profile → List Cluster
  | .onOffLight | .outlet => [.onOff]
  | .dimmableLight => [.onOff, .level]
  | .temperature => [.temperature]
  | .humidity => [.humidity]
  | .contact => [.contact]
  | .occupancy => [.occupancy]

def endpointFor (p : Projection) : Endpoint where
  id := p.endpoint
  deviceTypes := [p.profile.deviceType, devTypeBridgedNode]
  clusters := .descriptor :: .bridged :: p.profile.clusters.map .served

/-! ## Reading -/

inductive ErrorCode where
  | endpointNotFound
  | constraintError
  deriving DecidableEq, Repr

inductive AttributeId where
  | nodeLabel
  | reachable
  | uniqueId
  | onOff
  | currentLevel
  | remainingTime
  | minLevel
  | maxLevel
  | options
  | onOffTransitionTime
  | onLevel
  | defaultMoveRate
  | measuredValue
  | minMeasuredValue
  | maxMeasuredValue
  | stateValue
  | occupancy
  | occupancySensorType
  | occupancySensorTypeBitmap
  deriving DecidableEq, Repr

/-- The value of an attribute; bitmaps and enumerations are their numbers. -/
inductive Shown where
  | flag (value : Bool)
  | number (value : Int)
  | text (value : String)
  | null
  deriving DecidableEq, Repr

def orNotFound (value : Option Shown) : Except ErrorCode Shown := value.elim (.error .endpointNotFound) .ok

/-- `BridgedHandler` -/
def bridgedRead (b : BridgeState) (endpoint : Nat) :
    AttributeId → Option (Except ErrorCode Shown)
  | .nodeLabel => some (orNotFound ((b.projections.endpoint endpoint).map fun p => .text p.name))
  | .reachable => some (.ok (.flag true))
  | .uniqueId => some (orNotFound ((b.projections.endpoint endpoint).map fun p => .text p.uniqueId))
  | _ => none

/-- `OnOffHandler` -/
def onOffRead (b : BridgeState) (endpoint : Nat) : AttributeId → Option (Except ErrorCode Shown)
  | .onOff => some (orNotFound ((b.on endpoint).map .flag))
  | _ => none

/-- `LevelHandler` -/
def levelRead (b : BridgeState) (endpoint : Nat) : AttributeId → Option (Except ErrorCode Shown)
  | .currentLevel => some (orNotFound ((b.level endpoint).map fun v => .number (matterLevel v)))
  | .minLevel => some (.ok (.number minLevel))
  | .maxLevel => some (.ok (.number maxLevel))
  | .remainingTime | .options | .onOffTransitionTime => some (.ok (.number 0))
  | .onLevel | .defaultMoveRate => some (.ok .null)
  | _ => none

/-- `sensor_handler!` -/
def sensorRead (lo hi : Int) (convert : Float64 → Int) (b : BridgeState) (endpoint : Nat) :
    AttributeId → Option (Except ErrorCode Shown)
  | .measuredValue =>
    some (orNotFound (((b.projections.endpoint endpoint).bind Projection.sensor).map fun v =>
      .number (convert v)))
  | .minMeasuredValue => some (.ok (.number lo))
  | .maxMeasuredValue => some (.ok (.number hi))
  | _ => none

/-- `TemperatureHandler` -/
def temperatureRead : BridgeState → Nat → AttributeId → Option (Except ErrorCode Shown) :=
  sensorRead (-27315) 32766 measuredTemperature

/-- `HumidityHandler` -/
def humidityRead : BridgeState → Nat → AttributeId → Option (Except ErrorCode Shown) :=
  sensorRead 0 10000 measuredHumidity

/-- `ContactHandler` -/
def contactRead (b : BridgeState) (endpoint : Nat) : AttributeId → Option (Except ErrorCode Shown)
  | .stateValue =>
    some (orNotFound (((b.projections.endpoint endpoint).bind Projection.binarySensor).map .flag))
  | _ => none

/-- `OccupancyHandler`: the bit `OCCUPIED`, and a passive infrared sensor. -/
def occupancyRead (b : BridgeState) (endpoint : Nat) :
    AttributeId → Option (Except ErrorCode Shown)
  | .occupancy =>
    some (orNotFound (((b.projections.endpoint endpoint).bind Projection.binarySensor).map
      fun occupied => .number (if occupied then 1 else 0)))
  | .occupancySensorType => some (.ok (.number 0))
  | .occupancySensorTypeBitmap => some (.ok (.number 1))
  | _ => none

/-- What the handler of a cluster answers; `none` is an attribute that it does not have. -/
def BridgeState.read (b : BridgeState) (endpoint : Nat) :
    ClusterId → AttributeId → Option (Except ErrorCode Shown)
  | .descriptor => fun _ => none
  | .bridged => bridgedRead b endpoint
  | .served .onOff => onOffRead b endpoint
  | .served .level => levelRead b endpoint
  | .served .temperature => temperatureRead b endpoint
  | .served .humidity => humidityRead b endpoint
  | .served .contact => contactRead b endpoint
  | .served .occupancy => occupancyRead b endpoint

/-! ## Actions -/

/-- `set_node_label` -/
def BridgeState.setNodeLabel (b : BridgeState) (endpoint : Nat) (label : String) :
    Except ErrorCode BridgeState :=
  if 32 < label.utf8ByteSize then .error .constraintError
  else
    match b.projections.endpoint endpoint with
    | none => .error .endpointNotFound
    | some p => .ok ⟨b.projections.write endpoint { p with name := label }⟩

/-- The rest of `OnOffHandler::set` or `LevelHandler::set` after the answer to a command. -/
def BridgeState.settle (b : BridgeState) (endpoint : Nat) (level : Bool)
    (answer : Except Unit WireValue) : Option BridgeState := do
  let value ← answer.toOption
  let v ← effective level value
  let differs ← b.differs endpoint v
  pure (if differs then b.apply endpoint v else b)

/-- It is what a handler of the interleaved machine does. -/
theorem settled_eq (w : World) (t : Handler) (result : Except Unit WireValue) :
    w.settled t result = w.bridge.settle t.endpoint t.level result := rfl

structure Node where
  builder : ProjectionBuilder
  bridge : BridgeState
  endpoints : List Endpoint

namespace Node

/-- `BridgeState::new`; the root endpoint is that of the Matter library. -/
def new (root : Endpoint) (builder : ProjectionBuilder) : Node :=
  ⟨builder, .new, [root, aggregator]⟩

/-- The endpoints that `replace` advertises. -/
def advertised (root : Endpoint) (projections : List Projection) : List Endpoint :=
  ([root, aggregator] ++ projections.map endpointFor).mergeSort fun a b => decide (a.id ≤ b.id)

inductive Action where
  /-- `METHOD_SYNC`; `saved` is what saving the mappings returns. -/
  | sync (saved : Except String Unit) (request : SyncRequest)
  /-- `METHOD_EVENT` -/
  | event (request : EventRequest)
  | setNodeLabel (endpoint : Nat) (label : String)
  /-- The host answers a command. -/
  | settle (endpoint : Nat) (level : Bool) (answer : Except Unit WireValue)

def apply (root : Endpoint) (w : Node) : Action → Node
  | .sync saved request =>
    match w.builder.build saved request.devices with
    | (.error _, builder) => { w with builder }
    | (.ok built, builder) => ⟨builder, .replace built.result, advertised root built.result⟩
  | .event request => { w with bridge := (handleEvent w.bridge request).2 }
  | .setNodeLabel endpoint label =>
    match w.bridge.setNodeLabel endpoint label with
    | .error _ => w
    | .ok bridge => { w with bridge }
  | .settle endpoint level answer =>
    match w.bridge.settle endpoint level answer with
    | none => w
    | some bridge => { w with bridge }

def after (root : Endpoint) (builder : ProjectionBuilder) (actions : List Action) : Node :=
  actions.foldl (apply root) (new root builder)

/-- A sync carries the devices of a snapshot of the core. Nothing is asked of the other actions. -/
def Action.Valid : Action → Prop
  | .sync _ request => ∃ (snapshot : Core.Snapshot) (generation : Nat),
      Sendable snapshot.devices ∧ Adapter.syncRequest snapshot generation = .ok request
  | _ => True

/-- The bridge part of a sync is `handleSync`. -/
theorem apply_sync (root : Endpoint) (w : Node) (saved : Except String Unit)
    (request : SyncRequest) :
    ((w.apply root (.sync saved request)).builder, (w.apply root (.sync saved request)).bridge) =
      (handleSync w.builder w.bridge saved request).2 := by
  simp only [apply, handleSync]
  rcases w.builder.build saved request.devices with ⟨r, builder⟩
  cases r <;> rfl

end Node

/-! ## What a projection keeps -/

theorem takeBytes_size (n : Nat) (cs : List Char) :
    (String.ofList (takeBytes n cs)).utf8ByteSize ≤ n := by
  induction cs generalizing n with
  | nil => simp [takeBytes]
  | cons c cs ih =>
    unfold takeBytes
    split
    · rw [Text.utf8ByteSize_ofList_cons]
      have := ih (n - c.utf8Size)
      omega
    · simp

theorem truncateUtf8_size (value : String) (n : Nat) : (truncateUtf8 value n).utf8ByteSize ≤ n := by
  unfold truncateUtf8
  split
  · assumption
  · exact takeBytes_size n _

/-- What the profile of a projection shows is there and in range. -/
def Projection.Shows (p : Projection) : Prop :=
  match p.profile with
  | .onOffLight | .outlet => p.on.isSome = true
  | .dimmableLight => p.on.isSome = true ∧ p.level.isSome = true
  | .temperature => p.sensor.any inTemperature = true
  | .humidity => p.sensor.any inPercent = true
  | .contact | .occupancy => p.binarySensor.isSome = true

structure Projection.Fits (p : Projection) : Prop where
  name : p.name.utf8ByteSize ≤ 32
  level : ∀ v, p.level = some v → inPercent v = true
  shows : p.Shows

section Projections

variable {p : Projection}

/-- A selected projection. -/
theorem fits_selected {state : DeviceState} {c : Adapter.Capability} {selected : Selected}
    (h : (select state c).2 = some selected) (e : Nat) :
    (selected.projection state.device c e).Fits := by
  obtain ⟨-, mapped, value, -, -, -, hsel⟩ := select_some h
  have hkey : (∀ v, selected.level = some v → inPercent v = true) ∧
      (selected.projection state.device c e).Shows := by
    unfold selectValue at hsel
    unfold Projection.Shows
    cases mapped with
    | switchOn | outletOn | contactOpen | occupancy =>
      dsimp only at hsel
      split at hsel
      · cases Option.some.inj hsel
        simp [Selected.projection]
      · simp at hsel
    | lightOn =>
      dsimp only at hsel
      split at hsel
      · split at hsel
        · rename_i hlevel
          cases Option.some.inj hsel
          obtain ⟨cap, -, -, -, hfilter, -⟩ := composedLevel_some.mp (congrArg Prod.snd hlevel)
          have hin := (Option.filter_eq_some_iff.mp hfilter).2
          simpa [Selected.projection] using hin
        · cases Option.some.inj hsel
          simp [Selected.projection]
      · simp at hsel
    | temperature | humidity =>
      dsimp only at hsel
      split at hsel
      · rename_i hfilter
        cases Option.some.inj hsel
        have hin := (Option.filter_eq_some_iff.mp hfilter).2
        simpa [Selected.projection] using hin
      · simp at hsel
  exact ⟨truncateUtf8_size _ _, hkey.1, hkey.2⟩

/-- A reading that a profile can show. -/
def Reading.Fits (profile : Profile) : Reading → Prop
  | .level v => inPercent v = true
  | .sensor v => (profile = .temperature → inTemperature v = true) ∧
      (profile = .humidity → inPercent v = true)
  | _ => True

theorem reads_fits {id : String} {value : WireValue} {r : Reading}
    (h : p.reads id value = some r) : r.Fits p.profile := by
  unfold Projection.reads at h
  split at h
  · unfold Profile.reads at h
    split at h
    all_goals
      obtain ⟨v, hv, rfl⟩ := Option.map_eq_some_iff.mp h
      first
        | trivial
        | simp_all [Reading.Fits, Option.filter_eq_some_iff]
  · split at h
    · obtain ⟨v, hv, rfl⟩ := Option.map_eq_some_iff.mp h
      exact (Option.filter_eq_some_iff.mp hv).2
    · simp at h

theorem Projection.Fits.store (h : p.Fits) {r : Reading} (hr : r.Fits p.profile) :
    (p.store r).Fits := by
  obtain ⟨hname, hlevel, hshows⟩ := h
  unfold Projection.Shows at hshows
  cases r with
  | on v =>
    refine ⟨hname, hlevel, ?_⟩
    unfold Projection.Shows Projection.store
    cases hp : p.profile <;> simp_all
  | level v =>
    refine ⟨hname, fun l hl => ?_, ?_⟩
    · cases Option.some.inj hl
      exact hr
    · unfold Projection.Shows Projection.store
      cases hp : p.profile <;> simp_all
  | sensor v =>
    refine ⟨hname, hlevel, ?_⟩
    unfold Projection.Shows Projection.store
    cases hp : p.profile <;> simp_all [Reading.Fits]
  | binarySensor v =>
    refine ⟨hname, hlevel, ?_⟩
    unfold Projection.Shows Projection.store
    cases hp : p.profile <;> simp_all

end Projections

/-! ## What an action does -/

/-- At most one projection is replaced: by one of the same profile and endpoint that fits. -/
def BridgeState.Touches (b b' : BridgeState) : Prop :=
  b' = b ∨ ∃ e p p', b.projections.byEndpoint e = some p ∧ b' = ⟨b.projections.write e p'⟩ ∧
    endpointFor p' = endpointFor p ∧ p'.profile = p.profile ∧ (p.Fits → p'.Fits)

section Touches

variable {b b' : BridgeState}

theorem touches_store {e : Nat} {p : Projection} {r : Reading}
    (he : b.projections.byEndpoint e = some p) (hr : r.Fits p.profile) :
    b.Touches ⟨b.projections.write e (p.store r)⟩ :=
  .inr ⟨e, p, p.store r, he, rfl, by cases r <;> rfl, by cases r <;> rfl, fun h => h.store hr⟩

theorem touches_event (b : BridgeState) (request : EventRequest) :
    b.Touches (handleEvent b request).2 := by
  have hupdate : ∀ d id value, b.Touches (b.updateEvent d id value).2 := by
    intro d id value
    obtain ⟨err, herr⟩ | ⟨e, p, r, hc, he, hr⟩ := updateEvent_cases b d id value
    · exact .inl (by rw [herr])
    · obtain ⟨r', hr', hev⟩ | ⟨hnone, -⟩ := event_eq p id value
      · simp only [BridgeState.updateEvent, hc, ProjectionSet.endpoint, he, hev]
        exact touches_store he (reads_fits hr')
      · rw [hr] at hnone
        cases hnone
  have h := hupdate request.deviceId request.capabilityId request.value
  unfold handleEvent
  split
  · exact .inl rfl
  · split <;> rename_i heq <;> rwa [heq] at h

theorem touches_setNodeLabel {endpoint : Nat} {label : String}
    (h : b.setNodeLabel endpoint label = .ok b') : b.Touches b' := by
  unfold BridgeState.setNodeLabel at h
  split at h
  · cases h
  · rename_i hle
    split at h
    · cases h
    · rename_i p hp
      cases h
      exact .inr ⟨endpoint, p, { p with name := label }, hp, rfl, rfl, rfl, fun hfits =>
        ⟨Nat.le_of_not_lt hle, hfits.level, hfits.shows⟩⟩

/-- An answer that is stored is a truth value, or a percentage. -/
theorem settle_cases {endpoint : Nat} {level : Bool} {answer : Except Unit WireValue}
    (h : b.settle endpoint level answer = some b') :
    b' = b ∨ ∃ p r, b.projections.byEndpoint endpoint = some p ∧ r.Fits p.profile ∧
      b' = ⟨b.projections.write endpoint (p.store r)⟩ := by
  simp only [BridgeState.settle, Option.bind_eq_bind, Option.bind_eq_some_iff, Option.pure_def,
    Option.some.injEq] at h
  obtain ⟨value, -, v, hv, differs, hd, rfl⟩ := h
  cases differs with
  | false => exact .inl rfl
  | true =>
    right
    rw [if_pos rfl]
    cases v with
    | bool on =>
      obtain ⟨old, hold, -⟩ := Option.map_eq_some_iff.mp hd
      obtain ⟨p, hp, -⟩ := Option.bind_eq_some_iff.mp hold
      refine ⟨p, .on on, hp, trivial, ?_⟩
      simp only [BridgeState.apply, BridgeState.applyOn, hp, Projection.store]
    | number percent =>
      obtain ⟨old, hold, -⟩ := Option.map_eq_some_iff.mp hd
      obtain ⟨p, hp, -⟩ := Option.bind_eq_some_iff.mp hold
      have hpercent : inPercent percent = true := by
        unfold effective at hv
        split at hv
        · obtain ⟨n, hn, heq⟩ := Option.map_eq_some_iff.mp hv
          cases heq
          exact (Option.filter_eq_some_iff.mp hn).2
        · obtain ⟨n, -, heq⟩ := Option.map_eq_some_iff.mp hv
          cases heq
      refine ⟨p, .level percent, hp, hpercent, ?_⟩
      simp only [BridgeState.apply, BridgeState.applyLevel, hp, Projection.store]

end Touches

namespace Node

/-- An action replaces everything that is advertised, or changes one projection. -/
theorem apply_cases (root : Endpoint) (w : Node) (a : Action) :
    (∃ saved request built builder, a = .sync saved request ∧
      w.builder.build saved request.devices = (.ok built, builder) ∧
      w.apply root a = ⟨builder, .replace built.result, advertised root built.result⟩) ∨
    (w.apply root a).endpoints = w.endpoints ∧ w.bridge.Touches (w.apply root a).bridge := by
  cases a with
  | sync saved request =>
    rcases hb : w.builder.build saved request.devices with ⟨r, builder⟩
    cases r with
    | error e => exact .inr ⟨by simp only [apply, hb], .inl (by simp only [apply, hb])⟩
    | ok built => exact .inl ⟨saved, request, built, builder, rfl, hb, by simp only [apply, hb]⟩
  | event request => exact .inr ⟨rfl, touches_event w.bridge request⟩
  | setNodeLabel endpoint label =>
    right
    unfold apply
    dsimp only
    split
    · exact ⟨rfl, .inl rfl⟩
    · rename_i bridge h
      exact ⟨rfl, touches_setNodeLabel h⟩
  | settle endpoint level answer =>
    right
    unfold apply
    dsimp only
    split
    · exact ⟨rfl, .inl rfl⟩
    · rename_i bridge h
      obtain rfl | ⟨p, r, hp, hr, rfl⟩ := settle_cases h
      · exact ⟨rfl, .inl rfl⟩
      · exact ⟨rfl, touches_store hp hr⟩

/-! ## The invariant -/

/-- The advertised endpoints are those of some projections, and each of these is still there, up to
    its values and its name. -/
structure Ok (root : Endpoint) (w : Node) (ps : List Projection) : Prop where
  endpoints : w.endpoints = advertised root ps
  distinct : (ps.map Projection.endpoint).Nodup
  dynamic : ∀ p ∈ ps, firstDynamicEndpoint ≤ p.endpoint
  capacity : ps.length ≤ maxDynamicEndpoints
  present : ∀ p ∈ ps, ∃ q, w.bridge.projections.byEndpoint p.endpoint = some q ∧
    endpointFor q = endpointFor p
  fits : ∀ e q, w.bridge.projections.byEndpoint e = some q → q.Fits

theorem build_capacity {builder builder' : ProjectionBuilder} {saved : Except String Unit}
    {devices : List DeviceState} {built : BuiltProjection}
    (h : builder.build saved devices = (.ok built, builder')) :
    built.result.length ≤ maxDynamicEndpoints := by
  unfold ProjectionBuilder.build at h
  split at h
  · cases h
  · split at h
    · cases h
    · rename_i hle
      split at h <;> cases h
      exact Nat.le_of_not_lt hle

/-- A successful build is advertised whole. -/
theorem ok_replace {root : Endpoint} {builder builder' : ProjectionBuilder}
    {saved : Except String Unit} {devices : List DeviceState} {built : BuiltProjection}
    (hd : (devices.map fun w => w.device.id).Nodup) (hp : ∀ w ∈ devices, Proper w)
    (h : builder.build saved devices = (.ok built, builder')) :
    Ok root ⟨builder', .replace built.result, advertised root built.result⟩ built.result := by
  obtain ⟨hresult, -, hknown⟩ := build_ok h
  have hnodup : (built.result.map Projection.endpoint).Nodup := by
    rw [hresult]
    exact endpoints_nodup hd hp hknown
  have hitem : ∀ p ∈ built.result, ∃ i ∈ items devices, i.projection builder'.mappings = p := by
    intro p hpm
    rw [hresult] at hpm
    exact List.mem_map.mp hpm
  refine ⟨rfl, hnodup, fun p hpm => ?_, build_capacity h, fun p hpm => ?_, fun e q hq => ?_⟩
  · obtain ⟨i, hi, rfl⟩ := hitem p hpm
    obtain ⟨e, he⟩ := hknown i hi
    have hend : (i.projection builder'.mappings).endpoint = e := by
      simp [Item.projection, Selected.projection, he]
    rw [hend]
    exact (builder'.mappings.dynamic _ _ he).1
  · exact ⟨p, replace_mem hnodup hpm, rfl⟩
  · obtain ⟨hqm, -⟩ := replace_byEndpoint hq
    obtain ⟨i, hi, rfl⟩ := hitem q hqm
    exact fits_selected (mem_items.mp hi).2.2.2 _

theorem Ok.touches {root : Endpoint} {w w' : Node} {ps : List Projection} (hw : Ok root w ps)
    (he : w'.endpoints = w.endpoints) (h : w.bridge.Touches w'.bridge) : Ok root w' ps := by
  refine ⟨he.trans hw.endpoints, hw.distinct, hw.dynamic, hw.capacity, fun p hp => ?_,
    fun e q hq => ?_⟩
  · obtain ⟨q, hq, hqp⟩ := hw.present p hp
    obtain hsame | ⟨e, q₀, q', he₀, hb, hfor, -, -⟩ := h
    · exact ⟨q, hsame ▸ hq, hqp⟩
    · rw [hb]
      simp only [ProjectionSet.write, Function.update_apply]
      split
      · rename_i heq
        rw [← heq, hq] at he₀
        cases he₀
        exact ⟨q', rfl, hfor.trans hqp⟩
      · exact ⟨q, hq, hqp⟩
  · obtain hsame | ⟨e₀, q₀, q', he₀, hb, -, -, hfits⟩ := h
    · exact hw.fits e q (hsame ▸ hq)
    · rw [hb] at hq
      simp only [ProjectionSet.write, Function.update_apply] at hq
      split at hq
      · cases Option.some.inj hq
        exact hfits (hw.fits _ _ he₀)
      · exact hw.fits e q hq

theorem step_ok {root : Endpoint} {w : Node} {ps : List Projection} (hw : Ok root w ps)
    {a : Action} (ha : a.Valid) : ∃ ps', Ok root (w.apply root a) ps' := by
  obtain ⟨saved, request, built, builder, rfl, hbuild, heq⟩ | ⟨he, ht⟩ := apply_cases root w a
  · obtain ⟨snapshot, generation, hs, hreq⟩ := ha
    obtain ⟨-, devices, hdevices, rfl⟩ := Adapter.syncRequest_ok.mp hreq
    obtain ⟨hd, hp⟩ := proper_of_sendable hs hdevices
    exact ⟨built.result, heq ▸ ok_replace hd hp hbuild⟩
  · exact ⟨ps, hw.touches he ht⟩

theorem new_ok {root : Endpoint} (hroot : root.id = 0) (builder : ProjectionBuilder) :
    Ok root (new root builder) [] := by
  refine ⟨?_, List.nodup_nil, by simp, by simp, by simp, fun e q hq => by simp [new, BridgeState.new, ProjectionSet.default] at hq⟩
  have hsorted : [root, aggregator].Pairwise fun a b => decide (a.id ≤ b.id) = true := by
    simp [hroot]
  exact (List.mergeSort_of_pairwise hsorted).symm

theorem after_ok {root : Endpoint} (hroot : root.id = 0) (builder : ProjectionBuilder)
    {actions : List Action} (hv : ∀ a ∈ actions, a.Valid) :
    ∃ ps, Ok root (after root builder actions) ps := by
  induction actions using List.reverseRecOn with
  | nil => exact ⟨[], new_ok hroot builder⟩
  | append_singleton actions a ih =>
    obtain ⟨ps, hps⟩ := ih fun a ha => hv a (List.mem_append_left _ ha)
    rw [after, List.foldl_append]
    exact step_ok hps (hv a (by simp))

/-! ## What a controller reads -/

/-- What an advertised endpoint promises. -/
structure Served (b : BridgeState) (ep : Endpoint) : Prop where
  /-- each attribute that a handler has on a cluster of the endpoint is read -/
  readable : ∀ c ∈ ep.clusters, ∀ a r, b.read ep.id c a = some r → ∃ v, r = .ok v
  label : ∀ s, b.read ep.id .bridged .nodeLabel = some (.ok (.text s)) → s.utf8ByteSize ≤ 32
  level : .served .level ∈ ep.clusters → ∃ lo hi n : Int,
    b.read ep.id (.served .level) .minLevel = some (.ok (.number lo)) ∧
    b.read ep.id (.served .level) .maxLevel = some (.ok (.number hi)) ∧
    b.read ep.id (.served .level) .currentLevel = some (.ok (.number n)) ∧ lo ≤ n ∧ n ≤ hi
  measured : ∀ c, c = .served .temperature ∨ c = .served .humidity → c ∈ ep.clusters →
    ∃ lo hi n : Int, b.read ep.id c .minMeasuredValue = some (.ok (.number lo)) ∧
      b.read ep.id c .maxMeasuredValue = some (.ok (.number hi)) ∧
      b.read ep.id c .measuredValue = some (.ok (.number n)) ∧ lo ≤ n ∧ n ≤ hi

/-- The projection has a value for the cluster, in range. -/
def Has (p : Projection) : Cluster → Prop
  | .onOff => ∃ v, p.on = some v
  | .level => ∃ v, p.level = some v
  | .temperature => ∃ v, p.sensor = some v ∧ inTemperature v = true
  | .humidity => ∃ v, p.sensor = some v ∧ inPercent v = true
  | .contact | .occupancy => ∃ v, p.binarySensor = some v

theorem has_of_shows {p : Projection} (h : p.Shows) {c : Cluster} (hc : c ∈ p.profile.clusters) :
    Has p c := by
  unfold Projection.Shows at h
  cases hp : p.profile with
  | onOffLight | outlet | contact | occupancy =>
    rw [hp] at h hc
    rw [List.mem_singleton.mp hc]
    exact Option.isSome_iff_exists.mp h
  | dimmableLight =>
    rw [hp] at h hc
    rcases List.mem_pair.mp hc with rfl | rfl
    · exact Option.isSome_iff_exists.mp h.1
    · exact Option.isSome_iff_exists.mp h.2
  | temperature | humidity =>
    rw [hp] at h hc
    rw [List.mem_singleton.mp hc]
    simpa [Has, Option.any_eq_true] using h

section Served

variable {b : BridgeState} {p : Projection}

/-- A projection that fits is served, whatever its values are. -/
theorem served_of_fits {ep : Endpoint} (hep : ep = endpointFor p)
    (he : b.projections.byEndpoint ep.id = some p) (hfits : p.Fits) : Served b ep := by
  obtain ⟨hname, hlevel, hshows⟩ := hfits
  have hproj : b.projections.endpoint ep.id = some p := he
  have hhas : ∀ cl, .served cl ∈ ep.clusters → Has p cl := by
    intro cl hc
    refine has_of_shows hshows ?_
    simpa [hep, endpointFor] using hc
  refine ⟨fun c hc a r hr => ?_, fun s hs => ?_, fun hc => ?_, fun c hsensor hc => ?_⟩
  · cases c with
    | descriptor => simp [BridgeState.read] at hr
    | bridged =>
      cases a <;> simp [BridgeState.read, bridgedRead, hproj, orNotFound] at hr
      all_goals exact ⟨_, hr.symm⟩
    | served cl =>
      have h := hhas cl hc
      cases cl with
      | onOff =>
        obtain ⟨v, hv⟩ := h
        cases a <;> simp [BridgeState.read, onOffRead, BridgeState.on, hproj, hv, orNotFound] at hr
        exact ⟨_, hr.symm⟩
      | level =>
        obtain ⟨v, hv⟩ := h
        cases a <;>
          simp [BridgeState.read, levelRead, BridgeState.level, hproj, hv, orNotFound] at hr
        all_goals exact ⟨_, hr.symm⟩
      | temperature | humidity =>
        obtain ⟨v, hv, -⟩ := h
        cases a <;> simp [BridgeState.read, temperatureRead, humidityRead, sensorRead, hproj, hv,
          orNotFound] at hr
        all_goals exact ⟨_, hr.symm⟩
      | contact | occupancy =>
        obtain ⟨v, hv⟩ := h
        cases a <;> simp [BridgeState.read, contactRead, occupancyRead, hproj, hv, orNotFound] at hr
        all_goals exact ⟨_, hr.symm⟩
  · simp only [BridgeState.read, bridgedRead, hproj, orNotFound, Option.map_some, Option.elim_some,
      Option.some.injEq, Except.ok.injEq, Shown.text.injEq] at hs
    exact hs ▸ hname
  · obtain ⟨v, hv⟩ := hhas _ hc
    have hnan : v.isNan = false :=
      Float64.isNan_of_isFinite (Bool.and_eq_true_iff.mp (hlevel v hv)).1
    obtain ⟨hl, hu⟩ := matterLevel_bounds hnan
    exact ⟨minLevel, maxLevel, matterLevel v, rfl, rfl,
      by simp [BridgeState.read, levelRead, BridgeState.level, hproj, hv, orNotFound],
      by exact_mod_cast hl, by exact_mod_cast hu⟩
  · rcases hsensor with rfl | rfl
    · obtain ⟨v, hv, hin⟩ := hhas _ hc
      exact ⟨-27315, 32766, measuredTemperature v, rfl, rfl,
        by simp [BridgeState.read, temperatureRead, sensorRead, hproj, hv, orNotFound],
        measuredTemperature_bounds hin⟩
    · obtain ⟨v, hv, hin⟩ := hhas _ hc
      exact ⟨0, 10000, measuredHumidity v, rfl, rfl,
        by simp [BridgeState.read, humidityRead, sensorRead, hproj, hv, orNotFound],
        measuredHumidity_bounds hin⟩

end Served

theorem advertised_perm (root : Endpoint) (ps : List Projection) :
    (advertised root ps).Perm ([root, aggregator] ++ ps.map endpointFor) := List.mergeSort_perm _ _

/-- Endpoints with different numbers, sorted. -/
theorem advertised_pairwise {root : Endpoint} (hroot : root.id = 0) {ps : List Projection}
    (hd : (ps.map Projection.endpoint).Nodup)
    (hdyn : ∀ p ∈ ps, firstDynamicEndpoint ≤ p.endpoint) :
    (advertised root ps).Pairwise fun a b => a.id < b.id := by
  have hnodup : (([root, aggregator] ++ ps.map endpointFor).map Endpoint.id).Nodup := by
    have hmap : (ps.map endpointFor).map Endpoint.id = ps.map Projection.endpoint := by
      rw [List.map_map]
      rfl
    have hlow : ∀ e ∈ ps.map Projection.endpoint, 3 ≤ e := by
      intro e he
      obtain ⟨p, hp, rfl⟩ := List.mem_map.mp he
      exact hdyn p hp
    rw [List.map_append, hmap, List.nodup_append]
    refine ⟨by simp [hroot, aggregator, aggregatorEndpoint], hd, fun a ha e he => ?_⟩
    have := hlow e he
    simp only [List.map_cons, List.map_nil, List.mem_cons, List.not_mem_nil, or_false, hroot,
      aggregator, aggregatorEndpoint] at ha
    omega
  have hle := @List.pairwise_mergeSort Endpoint (fun a b => decide (a.id ≤ b.id))
    (fun a b c hab hbc => by simp only [decide_eq_true_eq] at *; omega)
    (fun a b => by simp only [Bool.or_eq_true, decide_eq_true_eq]; omega)
    ([root, aggregator] ++ ps.map endpointFor)
  have hne : (advertised root ps).Pairwise fun a b => a.id ≠ b.id :=
    List.pairwise_map.mp (((advertised_perm root ps).map Endpoint.id).nodup_iff.mpr hnodup)
  refine (hle.and hne).imp fun h => ?_
  simp only [decide_eq_true_eq] at h
  omega

/-- In every run of syncs, events, labels and answers to commands, in any order: the advertised
    endpoints are in order without repetition, the root, the aggregator and at most 16 from number 3
    on, and each of the latter is served. -/
theorem node_served {root : Endpoint} (hroot : root.id = 0) (builder : ProjectionBuilder)
    {actions : List Action} (hv : ∀ a ∈ actions, a.Valid) :
    let w := after root builder actions
    w.endpoints.Pairwise (fun a b => a.id < b.id) ∧ root ∈ w.endpoints ∧ aggregator ∈ w.endpoints ∧
      w.endpoints.length ≤ maxDynamicEndpoints + 2 ∧
      ∀ ep ∈ w.endpoints, ep = root ∨ ep = aggregator ∨
        firstDynamicEndpoint ≤ ep.id ∧ Served w.bridge ep := by
  obtain ⟨ps, hok⟩ := after_ok hroot builder hv
  have hperm := advertised_perm root ps
  dsimp only
  rw [hok.endpoints]
  refine ⟨advertised_pairwise hroot hok.distinct hok.dynamic, hperm.mem_iff.mpr (by simp),
    hperm.mem_iff.mpr (by simp), ?_, fun ep hep => ?_⟩
  · have hlen := hperm.length_eq
    have hcap := hok.capacity
    simp only [List.length_append, List.length_cons, List.length_nil, List.length_map] at hlen
    omega
  · rcases List.mem_append.mp (hperm.mem_iff.mp hep) with hfixed | hdynamic
    · rcases List.mem_pair.mp hfixed with rfl | rfl
      · exact .inl rfl
      · exact .inr (.inl rfl)
    · obtain ⟨p, hp, rfl⟩ := List.mem_map.mp hdynamic
      obtain ⟨q, hq, hqp⟩ := hok.present p hp
      exact .inr (.inr ⟨hok.dynamic p hp, served_of_fits hqp.symm hq (hok.fits _ _ hq)⟩)

end Node

/-! ## Level commands -/

/-- `to_wire` -/
def CanonicalValue.toWire : CanonicalValue → WireValue
  | .bool value => ⟨"bool", some value, none, none, none⟩
  | .number value => ⟨"number", none, none, some value, none⟩

/-- The level commands, with and without on/off; `up` is the mode of a move or a step. -/
inductive LevelRequest where
  | moveToLevel (level : Nat)
  | move (up : Bool)
  | step (up : Bool) (size : Nat)
  deriving DecidableEq, Repr

/-- The level that a handler passes to `set`. Bytes saturate at 255. -/
def LevelRequest.target (b : BridgeState) (endpoint : Nat) : LevelRequest → Except ErrorCode Nat
  | .moveToLevel level => .ok level
  | .move up => .ok (if up then 254 else 1)
  | .step up size =>
    match b.level endpoint with
    | none => .error .endpointNotFound
    | some percent =>
      let current := matterLevel percent
      .ok (if up then min 254 (min 255 (current + size)) else max 1 (current - size))

/-- What a controller asks for, as levels from 1 through 254. -/
def LevelRequest.expected (current : Nat) : LevelRequest → Nat
  | .moveToLevel level => max 1 (min 254 level)
  | .move up => if up then 254 else 1
  | .step up size => if up then min 254 (current + size) else max 1 (current - size)

section Level

variable {b : BridgeState} {endpoint : Nat}

theorem read_currentLevel {n : Int} :
    b.read endpoint (.served .level) .currentLevel = some (.ok (.number n)) ↔
      ∃ v, b.level endpoint = some v ∧ (matterLevel v : Int) = n := by
  simp only [BridgeState.read, levelRead, orNotFound, Option.some.injEq]
  cases b.level endpoint <;> simp

theorem target_expected {v : Float64} (hv : b.level endpoint = some v) (hn : v.isNan = false)
    (request : LevelRequest) : ∃ target, request.target b endpoint = .ok target ∧
      clampLevel target = request.expected (matterLevel v) := by
  have hb := matterLevel_bounds hn
  unfold minLevel maxLevel at hb
  cases request with
  | moveToLevel level => exact ⟨level, rfl, rfl⟩
  | move up =>
    refine ⟨_, rfl, ?_⟩
    cases up <;> rfl
  | step up size =>
    refine ⟨if up then min 254 (min 255 (matterLevel v + size)) else max 1 (matterLevel v - size),
      by simp only [LevelRequest.target, hv], ?_⟩
    unfold clampLevel minLevel maxLevel LevelRequest.expected
    cases up
    · simp only [Bool.false_eq_true, if_false]
      omega
    · simp only [if_true]
      omega

/-- Numbers that are equal have the same level. -/
theorem matterLevel_congr {x y : Float64} (h : x.eq y = true) : matterLevel x = matterLevel y := by
  simp only [Float64.eq, Bool.and_eq_true, Bool.not_eq_true', decide_eq_true_eq] at h
  obtain ⟨⟨hx, hy⟩, heq⟩ := h
  exact Nat.le_antisymm (matterLevel_mono hx hy (le_of_eq heq))
    (matterLevel_mono hy hx (le_of_eq heq.symm))

/-- A percentage in an answer is what is shown afterwards. -/
theorem level_settle {old percent : Float64} (h : b.level endpoint = some old)
    (hp : inPercent percent = true) :
    ∃ b' v, b.settle endpoint true (.ok (CanonicalValue.number percent).toWire) = some b' ∧
      b'.level endpoint = some v ∧ matterLevel v = matterLevel percent := by
  have heff : effective true (CanonicalValue.number percent).toWire = some (.number percent) := by
    simp [effective, CanonicalValue.toWire, wireNumber, Option.filter, hp]
  obtain ⟨p, he, -⟩ := Option.bind_eq_some_iff.mp h
  have he : b.projections.byEndpoint endpoint = some p := he
  cases heq : old.eq percent with
  | true =>
    refine ⟨b, old, ?_, h, matterLevel_congr heq⟩
    simp [BridgeState.settle, Except.toOption, heff, BridgeState.differs, h, heq]
  | false =>
    refine ⟨b.applyLevel endpoint percent, percent, ?_, ?_, rfl⟩
    · simp [BridgeState.settle, Except.toOption, heff, BridgeState.differs, h, heq,
        BridgeState.apply]
    · simp [BridgeState.applyLevel, he, BridgeState.level, ProjectionSet.endpoint,
        ProjectionSet.write]

end Level

namespace Node

/-- A controller reads a level and asks for another one, in whatever way. The percentage that is
    sent is one that the answer is checked for, and when the host answers with it, at any later time
    while the endpoint has a level, the level that was asked for is read. -/
theorem level_commands {root : Endpoint} (hroot : root.id = 0) (builder : ProjectionBuilder)
    {actions more : List Action} (hv : ∀ a ∈ actions ++ more, a.Valid) {endpoint current : Nat}
    (hread : (after root builder actions).bridge.read endpoint (.served .level) .currentLevel =
      some (.ok (.number current)))
    (hlight : ((after root builder (actions ++ more)).bridge.level endpoint).isSome = true)
    (request : LevelRequest) :
    ∃ target, request.target (after root builder actions).bridge endpoint = .ok target ∧
      inPercent (canonicalLevel target) = true ∧
      (after root builder (actions ++ more ++ [.settle endpoint true
        (.ok (CanonicalValue.number (canonicalLevel target)).toWire)])).bridge.read
          endpoint (.served .level) .currentLevel =
        some (.ok (.number (request.expected current))) := by
  obtain ⟨ps, hok⟩ := after_ok hroot builder fun a ha => hv a (List.mem_append_left _ ha)
  obtain ⟨v, hlevel, hcurrent⟩ := read_currentLevel.mp hread
  obtain rfl : matterLevel v = current := by exact_mod_cast hcurrent
  obtain ⟨p, he, hpv⟩ := Option.bind_eq_some_iff.mp hlevel
  have hfits := (hok.fits endpoint p he).level v hpv
  obtain ⟨target, htarget, hexpected⟩ := target_expected hlevel
    (Float64.isNan_of_isFinite (Bool.and_eq_true_iff.mp hfits).1) request
  have hin := inPercent_canonicalLevel target
  refine ⟨target, htarget, hin, ?_⟩
  obtain ⟨old, hold⟩ := Option.isSome_iff_exists.mp hlight
  obtain ⟨b', v', hsettle, hlevel', hv'⟩ := level_settle hold hin
  rw [after, List.foldl_append]
  simp only [List.foldl_cons, List.foldl_nil, apply]
  rw [after] at hsettle
  rw [hsettle]
  exact read_currentLevel.mpr ⟨v', hlevel', by rw [hv', matterLevel_canonicalLevel, hexpected]⟩

/-- A dimmable light at endpoint 3 and a thermometer at endpoint 4. -/
def houseRequest : SyncRequest := ⟨1, 1, Lifetime.sent [porch, cellar]⟩

/-- The sync, a temperature of -0.5 degrees and one that is out of range, and two labels, of which
    the second is too long. -/
def evening : List Action :=
  [.sync (.ok ()) houseRequest, .event (Adapter.eventRequest (reading 0xbfe0000000000000#64)),
   .event (Adapter.eventRequest (reading 0x4079000000000000#64)), .setNodeLabel 3 "Veranda",
   .setNodeLabel 3 "a label of more than thirty-two bytes"]

theorem evening_valid : ∀ a ∈ evening, a.Valid := by
  have hs : Sendable [porch, cellar] := ⟨by decide, by decide, by decide⟩
  have hreq : Adapter.syncRequest ⟨true, 1, [porch, cellar], 0⟩ 1 = .ok houseRequest := rfl
  simp only [evening, List.forall_mem_cons, Action.Valid]
  exact ⟨⟨_, 1, hs, hreq⟩, trivial, trivial, trivial, trivial, by simp⟩

theorem node_served_evening :
    let w := after ⟨0, [], []⟩ ⟨.default⟩ evening
    w.bridge.read 4 (.served .temperature) .measuredValue = some (.ok (.number (-50))) ∧
    w.bridge.read 3 .bridged .nodeLabel = some (.ok (.text "Veranda")) ∧
      ∀ ep ∈ w.endpoints, ep = ⟨0, [], []⟩ ∨ ep = aggregator ∨
        firstDynamicEndpoint ≤ ep.id ∧ Served w.bridge ep :=
  ⟨by decide +kernel, by decide +kernel,
    (@node_served ⟨0, [], []⟩ rfl ⟨.default⟩ evening evening_valid).2.2.2.2⟩

/-- The light is at level 1. It is stepped up by 99, and a temperature comes in between. -/
theorem level_commands_evening :
    let later : List Action := [.event (Adapter.eventRequest (reading 0x4035800000000000#64))]
    ∃ target, (LevelRequest.step true 99).target (after ⟨0, [], []⟩ ⟨.default⟩ evening).bridge 3 =
        .ok target ∧ target = 100 ∧
      (after ⟨0, [], []⟩ ⟨.default⟩ (evening ++ later ++ [.settle 3 true
        (.ok (CanonicalValue.number (canonicalLevel target)).toWire)])).bridge.read 3
          (.served .level) .currentLevel = some (.ok (.number 100)) := by
  have hv : ∀ a ∈ evening ++ [.event (Adapter.eventRequest (reading 0x4035800000000000#64))],
      a.Valid := by
    simp only [List.forall_mem_append, List.forall_mem_singleton]
    exact ⟨evening_valid, trivial⟩
  obtain ⟨target, htarget, -, hread⟩ := @level_commands ⟨0, [], []⟩ rfl ⟨.default⟩ evening _ hv 3 1
    (by decide +kernel) (by decide +kernel) (.step true 99)
  have h100 : (LevelRequest.step true 99).target
      (after ⟨0, [], []⟩ ⟨.default⟩ evening).bridge 3 = .ok 100 := by decide +kernel
  exact ⟨target, htarget, Except.ok.inj (htarget.symm.trans h100), hread⟩

end Node

end Oikade.Matter
