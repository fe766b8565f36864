/-
  The projection of canonical devices onto Matter endpoints
  (`oikade-matter-adapter/src/projection.rs`): `ProjectionBuilder::build` with its diagnostics, the
  stable endpoint numbers of `EndpointMappings`, and the `ProjectionSet` that the bridge reads.

  The match of `build` over a capability is `select`: the diagnostics it pushes and, unless the
  source continues with the next capability, the fields of the projection. The allocation of the
  endpoint and the three pushes that follow are `pushCapability`.

  * A `u16` is a `Nat`; `checkedAdd` is the addition that fails at 65535.
  * `EndpointMappings` holds the two facts that `load` and `allocate` keep: no endpoint below
    `firstDynamicEndpoint`, no endpoint twice.
  * Reading and parsing `endpoints.json` gives a `MappingFile` or nothing; saving it may fail with
    any message. `matter_level` and `canonical_level` are in `Matter.Level`.
-/
import Oikade.Adapter.Api

namespace Oikade.Matter

open Adapter (Capability Device DeviceState CapabilityState Diagnostic)

abbrev WireValue := Adapter.Value

/-- `ProjectionRef`: what the API calls a projection. -/
abbrev ProjectionRef := Adapter.Projection

def maxDynamicEndpoints : Nat := 16
def firstDynamicEndpoint : Nat := 3

inductive Profile where
  | onOffLight
  | dimmableLight
  | outlet
  | temperature
  | humidity
  | contact
  | occupancy
  deriving DecidableEq, Repr

structure Projection where
  endpoint : Nat
  deviceId : String
  primaryCapabilityId : String
  levelCapabilityId : Option String
  name : String
  uniqueId : String
  profile : Profile
  on : Option Bool
  level : Option Float64
  sensor : Option Float64
  binarySensor : Option Bool
  deriving DecidableEq, Repr

def Projection.capabilityForCluster (p : Projection) (level : Bool) : String :=
  if level then p.levelCapabilityId.getD p.primaryCapabilityId else p.primaryCapabilityId

inductive SyncError where
  | capacity (required : Nat)
  | persistence (message : String)
  deriving DecidableEq, Repr

/-! ## Values -/

def wireBool (value : WireValue) : Option Bool :=
  if value.kind = "bool" then value.bool else none

def wireNumber (value : WireValue) : Option Float64 :=
  if value.kind = "number" then value.number else none

/-- -273.15, 327.66, 0.0 and 100.0. -/
def temperatureMinimum : Float64 := ⟨0xc071126666666666#64⟩
def temperatureMaximum : Float64 := ⟨0x40747a8f5c28f5c3#64⟩
def percentMinimum : Float64 := ⟨0#64⟩
def percentMaximum : Float64 := ⟨0x4059000000000000#64⟩

def inTemperature (v : Float64) : Bool :=
  v.isFinite && Float64.inRange temperatureMinimum temperatureMaximum v

def inPercent (v : Float64) : Bool :=
  v.isFinite && Float64.inRange percentMinimum percentMaximum v

/-- The prefix of whole characters that fits into `n` bytes. -/
def takeBytes : Nat → List Char → List Char
  | _, [] => []
  | n, c :: cs => if c.utf8Size ≤ n then c :: takeBytes (n - c.utf8Size) cs else []

def truncateUtf8 (value : String) (maxBytes : Nat) : String :=
  if value.utf8ByteSize ≤ maxBytes then value
  else String.ofList (takeBytes maxBytes value.toList)

/-- `{hash:016x}` -/
def hex16 (n : Nat) : String :=
  let digits := Nat.toDigits 16 n
  String.ofList (List.replicate (16 - digits.length) '0' ++ digits)

def mappingKey (deviceId capabilityId : String) : String := deviceId ++ "/" ++ capabilityId

def uniqueId (deviceId capabilityId : String) : String :=
  let hash := (mappingKey deviceId capabilityId).toUTF8.toList.foldl
    (fun (hash : UInt64) byte => (hash ^^^ byte.toUInt64) * 0x100000001b3) 0xcbf29ce484222325
  "oikade-" ++ hex16 hash.toNat

/-! ## Endpoint numbers -/

def maxEndpoint : Nat := 65535

def checkedAdd (n : Nat) : Option Nat := if n < maxEndpoint then some (n + 1) else none

structure EndpointMappings where
  nextEndpoint : Nat
  mappings : Std.ExtTreeMap String Nat
  nextBound : nextEndpoint ≤ maxEndpoint
  dynamic : ∀ (k : String) e, mappings[k]? = some e → firstDynamicEndpoint ≤ e ∧ e ≤ maxEndpoint
  distinct : ∀ (k k' : String) e, mappings[k]? = some e → mappings[k']? = some e → k = k'

namespace EndpointMappings

def default : EndpointMappings where
  nextEndpoint := firstDynamicEndpoint
  mappings := ∅
  nextBound := by decide
  dynamic := by simp
  distinct := by simp

def used (m : EndpointMappings) (e : Nat) : Bool := m.mappings.toList.any fun entry => entry.2 = e

theorem used_iff (m : EndpointMappings) (e : Nat) :
    m.used e = true ↔ ∃ k : String, m.mappings[k]? = some e := by
  simp only [used, List.any_eq_true, decide_eq_true_eq, Prod.exists,
    Std.ExtTreeMap.mem_toList_iff_getElem?_eq_some]
  grind

/-- A free endpoint enters under a key. -/
def insert (m : EndpointMappings) (key : String) (e next : Nat) (hn : next ≤ maxEndpoint)
    (hd : firstDynamicEndpoint ≤ e ∧ e ≤ maxEndpoint) (hu : m.used e = false) :
    EndpointMappings where
  nextEndpoint := next
  mappings := m.mappings.insert key e
  nextBound := hn
  dynamic := by
    intro k e' h
    rw [Core.getElem?_insert] at h
    split at h
    · exact Option.some.inj h ▸ hd
    · exact m.dynamic k e' h
  distinct := by
    have hfree : ∀ k : String, m.mappings[k]? ≠ some e := fun k h =>
      absurd ((m.used_iff e).mpr ⟨k, h⟩) (by simp [hu])
    intro k k' e' h h'
    rw [Core.getElem?_insert] at h h'
    split at h <;> split at h'
    · simp_all
    · cases Option.some.inj h
      exact absurd h' (hfree k')
    · cases Option.some.inj h'
      exact absurd h (hfree k)
    · exact m.distinct k k' e' h h'

/-- What `endpoints.json` parses to. -/
structure MappingFile where
  version : UInt8
  nextEndpoint : UInt16
  mappings : Std.ExtTreeMap String UInt16

/-- One entry of the `retain` of `load`. The set `seen` of the source is the set of the endpoints
    that are kept so far. -/
def keep (m : EndpointMappings) (entry : String × UInt16) : EndpointMappings :=
  if h : firstDynamicEndpoint ≤ entry.2.toNat ∧ m.used entry.2.toNat = false then
    m.insert entry.1 entry.2.toNat m.nextEndpoint m.nextBound
      ⟨h.1, Nat.le_of_lt_succ entry.2.toNat_lt⟩ h.2
  else m

/-- `load`; `none` is a file that cannot be read or parsed. -/
def load (file : Option MappingFile) : EndpointMappings :=
  match file with
  | none => default
  | some file =>
    if file.version ≠ 1 then default
    else file.mappings.toList.foldl keep
      { default with
        nextEndpoint := max file.nextEndpoint.toNat firstDynamicEndpoint
        nextBound := Nat.max_le.mpr ⟨Nat.le_of_lt_succ file.nextEndpoint.toNat_lt, by decide⟩ }

/-- The `while` loop of `allocate`; the fuel is enough for every `u16` from the candidate on. -/
def search (used : Nat → Bool) : Nat → Nat → Option Nat
  | 0, _ => none
  | fuel + 1, candidate =>
    if used candidate then (checkedAdd candidate).bind (search used fuel) else some candidate

theorem checkedAdd_some {n k : Nat} (h : checkedAdd n = some k) :
    k ≤ maxEndpoint ∧ k = n + 1 := by
  simp only [checkedAdd, Option.ite_none_right_eq_some, Option.some.injEq] at h
  omega

theorem search_some {used : Nat → Bool} {fuel c e : Nat} (h : search used fuel c = some e) :
    c ≤ e ∧ used e = false := by
  induction fuel generalizing c with
  | zero => simp [search] at h
  | succ fuel ih =>
    unfold search at h
    split at h
    · obtain ⟨c', hc, h'⟩ := Option.bind_eq_some_iff.mp h
      have hle := ih h'
      have hadd := checkedAdd_some hc
      exact ⟨by omega, hle.2⟩
    · rename_i hu
      cases Option.some.inj h
      exact ⟨Nat.le_refl _, by simpa using hu⟩

/-- The search fails only when every endpoint from the candidate on is taken. -/
theorem search_none {used : Nat → Bool} {fuel c : Nat} (hfuel : maxEndpoint < c + fuel)
    (h : search used fuel c = none) (e : Nat) (hc : c ≤ e) (he : e ≤ maxEndpoint) :
    used e = true := by
  induction fuel generalizing c with
  | zero => omega
  | succ fuel ih =>
    unfold search at h
    split at h
    · rename_i hu
      by_cases hce : c = e
      · exact hce ▸ hu
      · have hlt : c < maxEndpoint := by omega
        simp only [checkedAdd, hlt, if_true, Option.bind_some] at h
        exact ih (by omega) h (by omega)
    · simp at h

section Candidate

variable {m : EndpointMappings} {candidate next : Nat}

theorem next_le (hn : checkedAdd candidate = some next) : next ≤ maxEndpoint := (checkedAdd_some hn).1

theorem candidate_bounds
    (h : search m.used (maxEndpoint + 1) (max m.nextEndpoint firstDynamicEndpoint) = some candidate)
    (hn : checkedAdd candidate = some next) :
    firstDynamicEndpoint ≤ candidate ∧ candidate ≤ maxEndpoint := by
  have hsearch := (search_some h).1
  have hadd := checkedAdd_some hn
  omega

theorem candidate_unused
    (h : search m.used (maxEndpoint + 1) (max m.nextEndpoint firstDynamicEndpoint) = some candidate) :
    m.used candidate = false := (search_some h).2

end Candidate

/-- `allocate`; `none` is the error "Matter endpoint IDs exhausted". -/
def allocate (m : EndpointMappings) (key : String) : Option (Nat × EndpointMappings) :=
  match m.mappings[key]? with
  | some endpoint => some (endpoint, m)
  | none =>
    match h : search m.used (maxEndpoint + 1) (max m.nextEndpoint firstDynamicEndpoint) with
    | none => none
    | some candidate =>
      match hn : checkedAdd candidate with
      | none => none
      | some next =>
        some (candidate, m.insert key candidate next (next_le hn) (candidate_bounds h hn)
          (candidate_unused h))

/-- Every key keeps its endpoint. -/
def Keeps (m m' : EndpointMappings) : Prop :=
  ∀ (k : String) (e : Nat), m.mappings[k]? = some e → m'.mappings[k]? = some e

theorem Keeps.refl (m : EndpointMappings) : m.Keeps m := fun _ _ h => h

theorem Keeps.trans {m m' m'' : EndpointMappings} (h : m.Keeps m') (h' : m'.Keeps m'') :
    m.Keeps m'' := fun k e hk => h' k e (h k e hk)

/-- The endpoint of the key is the one returned, and no other key changes. -/
theorem allocate_some {m m' : EndpointMappings} {key : String} {e : Nat}
    (h : m.allocate key = some (e, m')) : m'.mappings[key]? = some e ∧ m.Keeps m' := by
  unfold allocate at h
  split at h
  · rename_i hk
    cases Option.some.inj h
    exact ⟨hk, Keeps.refl m⟩
  · rename_i hk
    split at h
    · simp at h
    · split at h
      · simp at h
      · cases Option.some.inj h
        refine ⟨by simp [insert], fun k e' hk' => ?_⟩
        have hne : key ≠ k := by
          rintro rfl
          simp [hk] at hk'
        show (m.mappings.insert key e)[k]? = some e'
        rw [Core.getElem?_insert, if_neg hne, hk']

end EndpointMappings

/-! ## The selection of projections -/

def switchOn : String := "oikade.switch.on"
def lightOn : String := "oikade.light.on"
def lightLevel : String := "oikade.light.level"
def outletOn : String := "oikade.outlet.on"
def temperature : String := "oikade.sensor.temperature"
def humidity : String := "oikade.sensor.relative-humidity"
def contactOpen : String := "oikade.sensor.contact-open"
def occupancy : String := "oikade.sensor.occupancy-detected"

/-- The capability types with an endpoint of their own. -/
inductive Mapped where
  | switchOn
  | lightOn
  | outletOn
  | temperature
  | humidity
  | contactOpen
  | occupancy
  deriving DecidableEq, Repr

def Mapped.ofType (capabilityType : String) : Option Mapped :=
  if capabilityType = Matter.switchOn then some .switchOn
  else if capabilityType = Matter.lightOn then some .lightOn
  else if capabilityType = Matter.outletOn then some .outletOn
  else if capabilityType = Matter.contactOpen then some .contactOpen
  else if capabilityType = Matter.occupancy then some .occupancy
  else if capabilityType = Matter.temperature then some .temperature
  else if capabilityType = Matter.humidity then some .humidity
  else none

def Mapped.expectedKind : Mapped → String
  | .switchOn | .lightOn | .outletOn | .contactOpen | .occupancy => "bool"
  | .temperature | .humidity => "number"

def Mapped.actuator : Mapped → Bool
  | .switchOn | .lightOn | .outletOn => true
  | _ => false

def canActuate (c : Capability) : Bool :=
  c.permissions.read && c.permissions.write && c.permissions.observe

def canObserve (c : Capability) : Bool :=
  c.permissions.read && !c.permissions.write && c.permissions.observe

/-- `some` of the source: no text for an empty identifier. -/
def nonEmpty (value : String) : Option String := if value.isEmpty then none else some value

/-- A diagnostic that names a device and one of its capabilities. -/
def diagnostic (severity code message : String) (device : Device) (c : Capability) : Diagnostic :=
  ⟨severity, code, message, nonEmpty device.id, nonEmpty c.id⟩

/-- The map of the values of a device; of two entries for a capability the last counts. -/
def valueOf (state : DeviceState) (id : String) : Option WireValue :=
  (state.values.reverse.find? fun entry => entry.capabilityId = id).map (·.value)

def ofType (device : Device) (capabilityType : String) : List Capability :=
  device.capabilities.filter fun c => c.capabilityType = capabilityType

/-- What the match of `build` yields for a capability. -/
structure Selected where
  profile : Profile
  on : Option Bool
  level : Option Float64
  sensor : Option Float64
  binarySensor : Option Bool
  levelId : Option String
  deriving DecidableEq, Repr

/-- The level that joins a light. -/
def composedLevel (state : DeviceState) (c : Capability) :
    List Diagnostic × Option (Float64 × String) :=
  match ofType state.device lightLevel with
  | [] => ([], none)
  | [levelCap] =>
    if levelCap.kind ≠ "number" then
      ([diagnostic "error" "invalid_capability_kind" "composed light level must be numeric"
        state.device levelCap], none)
    else if !canActuate levelCap then
      ([diagnostic "warning" "unsupported_permissions"
        "light level permissions cannot be represented safely" state.device levelCap], none)
    else
      match ((valueOf state levelCap.id).bind wireNumber).filter inPercent with
      | some level => ([], some (level, levelCap.id))
      | none =>
        ([diagnostic "error" "invalid_light_level"
          "light level must be a number from 0 through 100" state.device levelCap], none)
  | _ =>
    ([diagnostic "warning" "ambiguous_light_level"
      "light on/off has multiple level capabilities" state.device c], none)

/-- The last match of `build`, on the type and the value of a capability. -/
def selectValue (state : DeviceState) (c : Capability) (mapped : Mapped) (value : WireValue) :
    List Diagnostic × Option Selected :=
  match mapped with
  | .switchOn =>
    match wireBool value with
    | some v => ([], some ⟨.onOffLight, some v, none, none, none, none⟩)
    | none =>
      ([diagnostic "error" "invalid_on_off" "on/off state must be boolean" state.device c], none)
  | .lightOn =>
    match wireBool value with
    | some on =>
      match composedLevel state c with
      | (diagnostics, some (level, levelId)) =>
        (diagnostics, some ⟨.dimmableLight, some on, some level, none, none, some levelId⟩)
      | (diagnostics, none) => (diagnostics, some ⟨.onOffLight, some on, none, none, none, none⟩)
    | none =>
      ([diagnostic "error" "invalid_on_off" "on/off state must be boolean" state.device c], none)
  | .outletOn =>
    match wireBool value with
    | some v => ([], some ⟨.outlet, some v, none, none, none, none⟩)
    | none =>
      ([diagnostic "error" "invalid_on_off" "on/off state must be boolean" state.device c], none)
  | .temperature =>
    match (wireNumber value).filter inTemperature with
    | some v => ([], some ⟨.temperature, none, none, some v, none, none⟩)
    | none =>
      ([diagnostic "error" "invalid_temperature"
        "temperature must be between -273.15 and 327.66 °C" state.device c], none)
  | .humidity =>
    match (wireNumber value).filter inPercent with
    | some v => ([], some ⟨.humidity, none, none, some v, none, none⟩)
    | none =>
      ([diagnostic "error" "invalid_relative_humidity"
        "relative humidity must be between 0 and 100 percent" state.device c], none)
  | .contactOpen =>
    match wireBool value with
    | some v => ([], some ⟨.contact, none, none, none, some v, none⟩)
    | none =>
      ([diagnostic "error" "invalid_sensor_state" "contact state must be boolean"
        state.device c], none)
  | .occupancy =>
    match wireBool value with
    | some v =>
      ([diagnostic "warning" "assumed_occupancy_modality"
        "occupancy is projected as a PIR sensor" state.device c],
        some ⟨.occupancy, none, none, none, some v, none⟩)
    | none =>
      ([diagnostic "error" "invalid_sensor_state" "occupancy state must be boolean"
        state.device c], none)

/-- What `build` makes of a capability before it allocates an endpoint. -/
def select (state : DeviceState) (c : Capability) : List Diagnostic × Option Selected :=
  if c.capabilityType = lightLevel then
    match ofType state.device lightOn with
    | [] =>
      ([diagnostic "warning" "missing_composed_light_on_off"
        "light level requires one light on/off capability" state.device c], none)
    | [_] => ([], none)
    | _ =>
      ([diagnostic "warning" "ambiguous_composed_light"
        "light level has multiple light on/off capabilities" state.device c], none)
  else
    match Mapped.ofType c.capabilityType with
    | none =>
      ([diagnostic "info" "unsupported_capability" "capability has no Matter mapping"
        state.device c], none)
    | some mapped =>
      if c.kind ≠ mapped.expectedKind then
        ([diagnostic "error" "invalid_capability_kind"
          "capability kind does not match its Matter mapping" state.device c], none)
      else if (mapped.actuator && !canActuate c) || (!mapped.actuator && !canObserve c) then
        ([diagnostic "warning" "unsupported_permissions"
          "capability permissions cannot be represented safely" state.device c], none)
      else
        match valueOf state c.id with
        | none =>
          ([diagnostic "error" "missing_capability_state" "capability has no current value"
            state.device c], none)
        | some value => selectValue state c mapped value

/-! ## The builder -/

/-- The accumulators of `build`. -/
structure Build where
  mappings : EndpointMappings
  result : List Projection
  refs : List ProjectionRef
  diagnostics : List Diagnostic

def Selected.projection (selected : Selected) (device : Device) (c : Capability) (endpoint : Nat) :
    Projection where
  endpoint := endpoint
  deviceId := device.id
  primaryCapabilityId := c.id
  levelCapabilityId := selected.levelId
  name := truncateUtf8 device.name 32
  uniqueId := uniqueId device.id c.id
  profile := selected.profile
  on := selected.on
  level := selected.level
  sensor := selected.sensor
  binarySensor := selected.binarySensor

/-- The capabilities of a projection, the primary one first. -/
def Projection.capabilityIds (p : Projection) : List String :=
  p.primaryCapabilityId :: p.levelCapabilityId.toList

def Projection.refs (p : Projection) : List ProjectionRef :=
  p.capabilityIds.map fun id => ⟨p.deviceId, id⟩

def pushCapability (state : DeviceState) (b : Build) (c : Capability) : Except SyncError Build :=
  match select state c with
  | (diagnostics, none) => .ok { b with diagnostics := b.diagnostics ++ diagnostics }
  | (diagnostics, some selected) =>
    match b.mappings.allocate (mappingKey state.device.id c.id) with
    | none => .error (.persistence "Matter endpoint IDs exhausted")
    | some (endpoint, mappings) =>
      let projection := selected.projection state.device c endpoint
      .ok ⟨mappings, b.result ++ [projection], b.refs ++ projection.refs,
        b.diagnostics ++ diagnostics⟩

/-- The diagnostic of a device that has nothing to select. -/
def deviceDiagnostic (device : Device) : Option Diagnostic :=
  if device.id.isEmpty || device.name.isEmpty then
    some ⟨"error", "invalid_device", "device ID and name are required", nonEmpty device.id, none⟩
  else if device.capabilities.isEmpty then
    some ⟨"info", "unsupported_device", "device has no capabilities to project",
      nonEmpty device.id, none⟩
  else none

def pushDevice (b : Build) (state : DeviceState) : Except SyncError Build :=
  match deviceDiagnostic state.device with
  | some diagnostic => .ok { b with diagnostics := b.diagnostics ++ [diagnostic] }
  | none => state.device.capabilities.foldlM (pushCapability state) b

structure ProjectionBuilder where
  mappings : EndpointMappings

/-- `BuiltProjection` -/
structure BuiltProjection where
  result : List Projection
  refs : List ProjectionRef
  diagnostics : List Diagnostic
  deriving DecidableEq, Repr

/-- `build`; `saved` is what saving the mappings returns. -/
def ProjectionBuilder.build (builder : ProjectionBuilder) (saved : Except String Unit)
    (devices : List DeviceState) : Except SyncError BuiltProjection × ProjectionBuilder :=
  match devices.foldlM pushDevice ⟨builder.mappings, [], [], []⟩ with
  | .error e => (.error e, builder)
  | .ok b =>
    if maxDynamicEndpoints < b.result.length then (.error (.capacity b.result.length), builder)
    else
      match saved with
      | .error message => (.error (.persistence message), builder)
      | .ok () => (.ok ⟨b.result, b.refs, b.diagnostics⟩, ⟨b.mappings⟩)

/-! ## The projection set -/

structure ProjectionSet where
  byEndpoint : Nat → Option Projection
  byCapability : String × String → Option Nat

namespace ProjectionSet

def default : ProjectionSet := ⟨fun _ => none, fun _ => none⟩

def endpoint (set : ProjectionSet) (e : Nat) : Option Projection := set.byEndpoint e

/-- What `find_mut` finds. -/
def find (set : ProjectionSet) (deviceId capabilityId : String) : Option Projection :=
  (set.byCapability (deviceId, capabilityId)).bind set.byEndpoint

/-- The projection of an endpoint is written through `endpoint_mut` or `find_mut`. -/
def write (set : ProjectionSet) (e : Nat) (p : Projection) : ProjectionSet :=
  { set with byEndpoint := Function.update set.byEndpoint e (some p) }

/-- One turn of the loop of `replace`. -/
def insert (set : ProjectionSet) (p : Projection) : ProjectionSet where
  byEndpoint := Function.update set.byEndpoint p.endpoint (some p)
  byCapability := p.capabilityIds.foldl
    (fun byCapability id => Function.update byCapability (p.deviceId, id) (some p.endpoint))
    set.byCapability

def replace (projections : List Projection) : ProjectionSet := projections.foldl insert default

end ProjectionSet

end Oikade.Matter
