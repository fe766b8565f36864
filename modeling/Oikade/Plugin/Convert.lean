/-
  The plugin API (`oikade-plugin-api/src/v1.rs`) and the host's conversions from it
  (`oikade-plugin-host/src/convert.rs`, `convert_devices` of `instance.rs`).

  A device of the instance `i` with the local identifier `a` becomes the core's device
  `plugin.i.a`. Both parts may contain the separating dot, so the identity is ambiguous:
  `unambiguous_iff` says for which two instance identifiers. A local identifier is checked only as
  the end of the core's identifier, so it may begin with a dot, an underscore or a hyphen.
-/
import Oikade.Config.Model
import Std.Data.ExtTreeMap

namespace Oikade.Plugin

open Oikade.Core (CapabilityId CapabilityType DeviceId Identifier ModelError Permissions ValueKind
  maxIdentifierLength validEdge validInner validateIdentifier validateIdentifier_ok)

/-! ## Frames -/

namespace Api

structure Value where
  kind : String
  bool : Option Bool
  integer : Option Int64
  number : Option Float64
  string : Option String
  deriving DecidableEq, Repr

structure Capability where
  id : String
  capabilityType : String
  name : String
  kind : String
  permissions : Permissions
  initialValue : Value
  deriving DecidableEq, Repr

structure Device where
  id : String
  name : String
  manufacturer : String
  model : String
  capabilities : List Capability
  deriving DecidableEq, Repr

end Api

/-! ## Conversions -/

inductive ConversionError where
  /-- "invalid device or capability: .." -/
  | model (error : ModelError)
  /-- "value must contain exactly one payload" -/
  | payloadCount
  /-- ".. value has the wrong payload" -/
  | wrongPayload (kind : String)
  /-- "unsupported value kind .." -/
  | unsupportedKind (kind : String)
  deriving DecidableEq, Repr

def payload {α : Type} (value : Option α) (kind : String) : Except ConversionError α :=
  match value with
  | some value => .ok value
  | none => .error (.wrongPayload kind)

def valueFromApi (value : Api.Value) : Except ConversionError Core.Value := do
  let payloads := value.bool.isSome.toNat + value.integer.isSome.toNat +
    value.number.isSome.toNat + value.string.isSome.toNat
  if payloads ≠ 1 then throw .payloadCount
  let converted ←
    match value.kind with
    | "bool" => (payload value.bool "bool").map Core.Value.bool
    | "integer" => (payload value.integer "integer").map Core.Value.integer
    | "number" => (payload value.number "number").map Core.Value.number
    | "string" => (payload value.string "string").map Core.Value.string
    | other => .error (.unsupportedKind other)
  converted.validate.mapError .model
  pure converted

def kindFromApi (kind : String) : Except ConversionError ValueKind :=
  match kind with
  | "bool" => .ok .bool
  | "integer" => .ok .integer
  | "number" => .ok .number
  | "string" => .ok .string
  | other => .error (.unsupportedKind other)

def capabilityFromApi (capability : Api.Capability) : Except ConversionError Core.Capability := do
  let kind ← kindFromApi capability.kind
  let id ← (Identifier.new capability.id).mapError .model
  let capabilityType ← (Identifier.new capability.capabilityType).mapError .model
  let initialValue ← valueFromApi capability.initialValue
  pure ⟨id, capabilityType, capability.name, kind, capability.permissions, initialValue⟩

/-- The text of the core's identifier of a plugin's device. -/
def globalId (instanceId localId : String) : String := "plugin." ++ instanceId ++ "." ++ localId

def deviceFromApi (instanceId : String) (device : Api.Device) :
    Except ConversionError Core.Device := do
  let id ← (Identifier.new (globalId instanceId device.id)).mapError .model
  let capabilities ← device.capabilities.mapM capabilityFromApi
  let converted : Core.Device :=
    ⟨id, device.name, device.manufacturer, device.model, capabilities⟩
  converted.validate.mapError .model
  pure converted

/-- Why the devices of a plugin are refused. -/
inductive DevicesError where
  /-- "plugin returned duplicate device ID .." -/
  | duplicate (id : String)
  | conversion (error : ConversionError)
  deriving DecidableEq, Repr

/-- The devices of an instance, by their local identifiers. -/
abbrev Definitions := Std.ExtTreeMap String Core.Device

def convertDevice (instanceId : String) (definitions : Definitions) (device : Api.Device) :
    Except DevicesError Definitions := do
  if device.id ∈ definitions then throw (.duplicate device.id)
  let converted ← (deviceFromApi instanceId device).mapError .conversion
  pure (definitions.insert device.id converted)

def convertDevices (instanceId : String) (devices : List Api.Device) :
    Except DevicesError Definitions :=
  devices.foldlM (convertDevice instanceId) ∅

/-! ## Identity -/

theorem deviceFromApi_id {i : String} {a : Api.Device} {d : Core.Device}
    (h : deviceFromApi i a = .ok d) : d.id.asStr = globalId i a.id := by
  obtain ⟨id, hid, h⟩ := Fallible.bind_ok.mp h
  obtain ⟨capabilities, -, h⟩ := Fallible.bind_ok.mp h
  obtain ⟨⟨⟩, -, h⟩ := Fallible.bind_ok.mp h
  cases Except.ok.inj h
  exact Identifier.new_ok.mp (Fallible.mapError_ok.mp hid)

/-- No two devices that the instances `i` and `j` can declare have one identity in the core, but
    for the same local device of the same instance. -/
def Unambiguous (i j : String) : Prop :=
  ∀ a b : Api.Device, ∀ d e : Core.Device, deviceFromApi i a = .ok d → deviceFromApi j b = .ok e →
    d.id = e.id → i = j ∧ a.id = b.id

/-- `j` is `i`, a dot and more, and leaves room for a local identifier. -/
def Extends (j i : String) : Prop :=
  (∃ rest : String, j = i ++ "." ++ rest) ∧ (globalId j "").utf8ByteSize < maxIdentifierLength

/-- Two ways to read one text as two parts around a dot: the parts are the same, or the dot of one
    reading stands in a part of the other. -/
theorem split_dot {i j a b : List Char} (h : i ++ '.' :: a = j ++ '.' :: b) :
    (i = j ∧ a = b) ∨ (∃ x, j = i ++ '.' :: x ∧ a = x ++ '.' :: b) ∨
      ∃ x, i = j ++ '.' :: x ∧ b = x ++ '.' :: a := by
  rcases List.append_eq_append_iff.mp h with ⟨x, hj, ha⟩ | ⟨x, hi, hb⟩
  · cases x with
    | nil =>
      rw [List.append_nil] at hj
      rw [List.nil_append] at ha
      exact .inl ⟨hj.symm, (List.cons.inj ha).2⟩
    | cons c x =>
      obtain ⟨rfl, hrest⟩ := List.cons.inj ha
      exact .inr (.inl ⟨x, hj, hrest⟩)
  · cases x with
    | nil =>
      rw [List.append_nil] at hi
      rw [List.nil_append] at hb
      exact .inl ⟨hi, (List.cons.inj hb).2.symm⟩
    | cons c x =>
      obtain ⟨rfl, hrest⟩ := List.cons.inj hb
      exact .inr (.inr ⟨x, hi, hrest⟩)

theorem globalId_toList (i a : String) :
    (globalId i a).toList = "plugin.".toList ++ (i.toList ++ '.' :: a.toList) := by
  simp [globalId]

theorem globalId_extended (i x a : String) :
    globalId (i ++ "." ++ x) a = globalId i (x ++ "." ++ a) := by
  simp [globalId, String.append_assoc]

/-- One identity, two readings of it. -/
theorem globalId_eq {i j a b : String} (h : globalId i a = globalId j b) :
    (i = j ∧ a = b) ∨ (∃ x, j = i ++ "." ++ x) ∨ ∃ x, i = j ++ "." ++ x := by
  have hchars := congrArg String.toList h
  rw [globalId_toList, globalId_toList, List.append_cancel_left_eq] at hchars
  have text : ∀ {s t : String} {x : List Char}, s.toList = t.toList ++ '.' :: x →
      s = t ++ "." ++ String.ofList x := fun h => by
    rw [← String.toList_inj, h]
    simp
  rcases split_dot hchars with ⟨hij, hab⟩ | ⟨x, hj, -⟩ | ⟨x, hi, -⟩
  · exact .inl ⟨String.toList_inj.mp hij, String.toList_inj.mp hab⟩
  · exact .inr (.inl ⟨_, text hj⟩)
  · exact .inr (.inr ⟨_, text hi⟩)

/-- The instance that declares a device leaves room for its local identifier. -/
theorem room_of_declared {i : String} {a : Api.Device} {d : Core.Device}
    (h : deviceFromApi i a = .ok d) : (globalId i "").utf8ByteSize < maxIdentifierLength := by
  have hid := deviceFromApi_id h
  obtain ⟨-, hlen, -, hlast, -⟩ := validateIdentifier_ok.mp d.id.valid
  rw [hid] at hlen hlast
  have hne : a.id ≠ "" := by
    intro he
    have hdot : (globalId i "").toList = ("plugin." ++ i).toList ++ ['.'] := by simp [globalId]
    rw [he, hdot, List.getLast?_concat] at hlast
    exact absurd hlast (by decide)
  have hpos : 0 < a.id.utf8ByteSize := by
    have := mt String.utf8ByteSize_eq_zero_iff.mp hne
    omega
  simp only [globalId, String.utf8ByteSize_append] at hlen ⊢
  have : "".utf8ByteSize = 0 := rfl
  omega

/-! ## When the identities are unambiguous -/

/-- A device with one switch, under a local identifier. -/
def probe (localId : String) : Api.Device :=
  ⟨localId, "Probe", "", "", [⟨"on", "oikade.switch.on", "On", "bool", ⟨true, false, true⟩,
    ⟨"bool", some false, none, none, none⟩⟩]⟩

def probeCapability : Core.Capability :=
  ⟨⟨"on", Core.validateIdentifier_on⟩, Core.switchOn, "On", .bool, ⟨true, false, true⟩, .bool false⟩

theorem probe_capabilities (a : String) :
    (probe a).capabilities.mapM capabilityFromApi = .ok [probeCapability] := by
  show List.mapM capabilityFromApi [_] = _
  decide

theorem probe_validate (id : DeviceId) :
    (⟨id, "Probe", "", "", [probeCapability]⟩ : Core.Device).validate = .ok () := by
  have hname : (Text.trim "Probe").isEmpty = false := by decide
  have hcapability : probeCapability.validate = .ok () := by decide
  simp [Core.Device.validate, Core.Device.validateCapabilities, hname, hcapability, bind,
    Except.bind]

theorem deviceFromApi_probe {i a : String} (h : validateIdentifier (globalId i a) = .ok ()) :
    deviceFromApi i (probe a) = .ok ⟨⟨globalId i a, h⟩, "Probe", "", "", [probeCapability]⟩ := by
  refine Fallible.bind_ok.mpr ⟨⟨globalId i a, h⟩, ?_, ?_⟩
  · exact Fallible.mapError_ok.mpr (Identifier.new_ok.mpr rfl)
  · refine Fallible.bind_ok.mpr ⟨_, probe_capabilities a, ?_⟩
    refine Fallible.bind_ok.mpr ⟨⟨⟩, ?_, rfl⟩
    exact Fallible.mapError_ok.mpr (probe_validate _)

/-- An instance identifier that leaves room for it can declare the local device "0". -/
theorem globalId_zero {j : String} (hj : validateIdentifier j = .ok ())
    (hroom : (globalId j "").utf8ByteSize < maxIdentifierLength) :
    validateIdentifier (globalId j "0") = .ok () := by
  obtain ⟨-, -, -, -, hinner⟩ := validateIdentifier_ok.mp hj
  have hchars : (globalId j "0").toList = "plugin.".toList ++ (j.toList ++ ['.', '0']) := by
    rw [globalId_toList]
    rfl
  refine validateIdentifier_ok.mpr ⟨?_, ?_, ?_, ?_, ?_⟩
  · have hne : globalId j "0" ≠ "" := fun he => by
      rw [he] at hchars
      simp at hchars
    simpa [String.isEmpty_eq_false_iff] using hne
  · have h0 : (globalId j "0").utf8ByteSize = (globalId j "").utf8ByteSize + 1 := by
      simp only [globalId, String.utf8ByteSize_append]
      rfl
    omega
  · rw [hchars]
    rfl
  · have hlast : (globalId j "0").toList = ("plugin." ++ j ++ ".").toList ++ ['0'] := by
      simp [globalId]
    rw [hlast, List.getLast?_concat]
    decide
  · have hstart : "plugin.".toList.all validInner = true := by decide
    have hend : ['.', '0'].all validInner = true := by decide
    intro c hc
    rw [hchars, List.mem_append, List.mem_append] at hc
    rcases hc with hc | hc | hc
    · exact List.all_eq_true.mp hstart c hc
    · exact hinner c hc
    · exact List.all_eq_true.mp hend c hc

/-- A longer instance identifier claims a device of the shorter one. -/
theorem not_unambiguous_of_extends {i j : String} (hj : validateIdentifier j = .ok ())
    (hext : Extends j i) : ¬Unambiguous i j ∧ ¬Unambiguous j i := by
  obtain ⟨⟨x, rfl⟩, hroom⟩ := hext
  have hzero := globalId_zero hj hroom
  have hsame := globalId_extended i x "0"
  have hlong := deviceFromApi_probe hzero
  have hshort := deviceFromApi_probe (hsame ▸ hzero)
  have hne : i ≠ i ++ "." ++ x := fun he => by
    have := congrArg (fun s => s.toList.length) he
    simp at this
  have hid : ∀ h h', (⟨globalId i (x ++ "." ++ "0"), h⟩ : DeviceId) =
      ⟨globalId (i ++ "." ++ x) "0", h'⟩ := fun _ _ => Core.Identifier.ext' hsame.symm
  exact ⟨fun hu => hne (hu _ _ _ _ hshort hlong (hid _ _)).1,
    fun hu => hne (hu _ _ _ _ hlong hshort (hid _ _).symm).1.symm⟩

/-- For every two instance identifiers that configurations accept: their devices never share an
    identity exactly when neither identifier extends the other by a dot and more and still leaves
    room for a local identifier. -/
theorem unambiguous_iff {i j : String} (hi : InstanceId i) (hj : InstanceId j) :
    Unambiguous i j ↔ ¬Extends j i ∧ ¬Extends i j := by
  constructor
  · intro hu
    exact ⟨fun he => (not_unambiguous_of_extends hj.valid he).1 hu,
      fun he => (not_unambiguous_of_extends hi.valid he).2 hu⟩
  · rintro ⟨hji, hij⟩ a b d e ha hb hid
    have htext : globalId i a.id = globalId j b.id := by
      rw [← deviceFromApi_id ha, ← deviceFromApi_id hb, hid]
    rcases globalId_eq htext with hsame | hx | hx
    · exact hsame
    · exact absurd ⟨hx, room_of_declared hb⟩ hji
    · exact absurd ⟨hx, room_of_declared ha⟩ hij

def gardenAndKitchen : Config :=
  { plugins := [⟨"garden", "./plugins/garden"⟩, ⟨"kitchen", "./plugins/kitchen"⟩] }

theorem gardenAndKitchen_ok : gardenAndKitchen.validate = .ok gardenAndKitchen := by
  decide +kernel

theorem unambiguous_gardenAndKitchen :
    InstanceId "garden" ∧ InstanceId "kitchen" ∧ Unambiguous "garden" "kitchen" := by
  have hgarden : InstanceId "garden" :=
    ⟨gardenAndKitchen, _, gardenAndKitchen_ok, _, List.mem_cons_self, rfl⟩
  have hkitchen : InstanceId "kitchen" :=
    ⟨gardenAndKitchen, _, gardenAndKitchen_ok, _, List.mem_cons_of_mem _ List.mem_cons_self, rfl⟩
  refine ⟨hgarden, hkitchen, (unambiguous_iff hgarden hkitchen).mpr ⟨?_, ?_⟩⟩
  · rintro ⟨⟨rest, h⟩, -⟩
    have hchars := congrArg (fun s => s.toList.head?) h
    simp at hchars
  · rintro ⟨⟨rest, h⟩, -⟩
    have hchars := congrArg (fun s => s.toList.head?) h
    simp at hchars

/-- Two plugins, one of a garden and one of its shed. -/
def gardenAndShed : Config :=
  { plugins := [⟨"garden", "./plugins/garden"⟩, ⟨"garden.shed", "./plugins/shed"⟩] }

theorem gardenAndShed_ok : gardenAndShed.validate = .ok gardenAndShed := by
  decide +kernel

/-- The weather station of the shed, declared by either plugin, is one device of the core. -/
theorem not_unambiguous_gardenAndShed :
    ¬∀ i j, InstanceId i → InstanceId j → ∀ a b : Api.Device, ∀ d e : Core.Device,
      deviceFromApi i a = .ok d → deviceFromApi j b = .ok e → d.id = e.id →
        i = j ∧ a.id = b.id := by
  intro hall
  have hgarden : InstanceId "garden" :=
    ⟨gardenAndShed, _, gardenAndShed_ok, _, List.mem_cons_self, rfl⟩
  have hshed : InstanceId "garden.shed" :=
    ⟨gardenAndShed, _, gardenAndShed_ok, _, List.mem_cons_of_mem _ List.mem_cons_self, rfl⟩
  have ha : deviceFromApi "garden" (probe "shed.station") =
      .ok ⟨⟨"plugin.garden.shed.station", by decide⟩, "Probe", "", "", [probeCapability]⟩ :=
    deviceFromApi_probe (by decide)
  have hb : deviceFromApi "garden.shed" (probe "station") =
      .ok ⟨⟨"plugin.garden.shed.station", by decide⟩, "Probe", "", "", [probeCapability]⟩ :=
    deviceFromApi_probe (by decide)
  exact absurd (hall _ _ hgarden hshed _ _ _ _ ha hb rfl).1 (by decide)

end Oikade.Plugin
