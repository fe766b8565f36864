/-
  The protocol-neutral device model (`oikade-core/src/model.rs`): identifiers, typed values,
  capabilities, devices and their validation, and `validate_capability_value` from
  `oikade-core/src/runtime/subscription.rs`.

  An identifier that `validate_identifier` refuses cannot be built (`Identifier.valid`). Numbers are
  binary64 data, so `Value.partialEq` (the derived `PartialEq`) is not the equality of the model:
  it identifies the two zeros and separates a NaN from itself. A `ModelError` keeps what its message
  is made of.
-/
import Oikade.Lib.Float64
import Oikade.Lib.Text

namespace Oikade.Core

/-! ## Identifiers -/

inductive ValueKind where
  | bool
  | integer
  | number
  | string
  deriving DecidableEq, Repr

def ValueKind.asStr : ValueKind → String
  | .bool => "bool"
  | .integer => "integer"
  | .number => "number"
  | .string => "string"

/-- `ModelError`, by what its message says. -/
inductive ModelError where
  /-- "identifier is empty" -/
  | emptyIdentifier
  /-- "identifier exceeds 128 bytes" -/
  | longIdentifier
  /-- "identifier must contain lowercase letters, digits, dots, underscores, or hyphens" -/
  | identifierCharacters
  /-- "number must be finite" -/
  | notFinite
  /-- "device .. name is required" -/
  | deviceName (device : String)
  /-- "device .. must have at least one capability" -/
  | noCapability (device : String)
  /-- "device .. has duplicate capability ID .." -/
  | duplicateCapability (device capability : String)
  /-- "capability .. name is required" -/
  | capabilityName (capability : String)
  /-- "capability .. kind is .., want .. for type .." -/
  | capabilityKind (capability : String) (kind want : ValueKind) (type : String)
  /-- "capability .. must permit at least one operation" -/
  | noPermission (capability : String)
  /-- "capability .. initial value is .., want .." -/
  | initialKind (capability : String) (kind want : ValueKind)
  /-- "capability type .. requires .., got .." -/
  | valueKind (type : String) (want kind : ValueKind)
  /-- "capability type .. requires a percentage from 0 through 100, got .." -/
  | levelRange (type : String) (level : Float64)
  deriving DecidableEq, Repr

def maxIdentifierLength : Nat := 128

def validEdge (c : Char) : Bool := ('a' ≤ c && c ≤ 'z') || ('0' ≤ c && c ≤ '9')

def validInner (c : Char) : Bool := validEdge c || c = '.' || c = '_' || c = '-'

/-- `validate_identifier`. The source looks at bytes; a character outside ASCII has no byte that
    `valid_inner` accepts, so looking at characters is the same. -/
def validateIdentifier (value : String) : Except ModelError Unit :=
  if value.isEmpty then .error .emptyIdentifier
  else if maxIdentifierLength < value.utf8ByteSize then .error .longIdentifier
  else if !value.toList.head?.any validEdge || !value.toList.getLast?.any validEdge ||
      !value.toList.all validInner then .error .identifierCharacters
  else .ok ()

/-- What an identifier names. -/
inductive IdentifierOf where
  | device
  | capability
  | capabilityType
  deriving DecidableEq, Repr

/-- A string that `validate_identifier` accepted. -/
structure Identifier (of : IdentifierOf) where
  asStr : String
  valid : validateIdentifier asStr = .ok ()
  deriving DecidableEq

abbrev DeviceId := Identifier .device
abbrev CapabilityId := Identifier .capability
abbrev CapabilityType := Identifier .capabilityType

def Identifier.new {of : IdentifierOf} (value : String) : Except ModelError (Identifier of) :=
  match h : validateIdentifier value with
  | .ok () => .ok ⟨value, h⟩
  | .error e => .error e

@[ext] theorem Identifier.ext' {of : IdentifierOf} {a b : Identifier of} (h : a.asStr = b.asStr) :
    a = b := by
  cases a
  cases b
  simpa using h

theorem Identifier.new_ok {of : IdentifierOf} {value : String} {id : Identifier of} :
    new value = .ok id ↔ id.asStr = value := by
  unfold new
  split
  · rename_i h
    constructor
    · rintro ⟨⟩
      rfl
    · rintro rfl
      rfl
  · rename_i e h
    constructor
    · rintro ⟨⟩
    · rintro rfl
      rw [id.valid] at h
      cases h

theorem validateIdentifier_ok {value : String} : validateIdentifier value = .ok () ↔
    value.isEmpty = false ∧ value.utf8ByteSize ≤ maxIdentifierLength ∧
      value.toList.head?.any validEdge = true ∧ value.toList.getLast?.any validEdge = true ∧
      ∀ c ∈ value.toList, validInner c = true := by
  unfold validateIdentifier
  cases value.isEmpty with
  | true => simp
  | false =>
    by_cases hlen : maxIdentifierLength < value.utf8ByteSize
    · simp [hlen, Nat.not_le_of_lt hlen]
    · simp [hlen, Nat.le_of_not_lt hlen, ← and_assoc]

theorem validateIdentifier_on : validateIdentifier "on" = .ok () := by decide

/-- The checks that an identifier has passed. -/
theorem Identifier.checks {of : IdentifierOf} (i : Identifier of) :
    i.asStr.isEmpty = false ∧ ∀ c ∈ i.asStr.toList, validInner c = true := by
  obtain ⟨hempty, -, -, -, hall⟩ := validateIdentifier_ok.mp i.valid
  exact ⟨hempty, hall⟩

instance (of : IdentifierOf) : Ord (Identifier of) := ⟨compareOn Identifier.asStr⟩

instance (of : IdentifierOf) : Std.TransOrd (Identifier of) :=
  inferInstanceAs (Std.TransCmp (compareOn Identifier.asStr))

instance (of : IdentifierOf) : Std.LawfulEqOrd (Identifier of) where
  eq_of_compare {a b} h :=
    Identifier.ext' (Std.LawfulEqOrd.eq_of_compare (show compare a.asStr b.asStr = .eq from h))

/-! ## Values -/

inductive Value where
  | bool (value : Bool)
  | integer (value : Int64)
  | number (value : Float64)
  | string (value : String)
  deriving DecidableEq, Repr

def Value.kind : Value → ValueKind
  | .bool _ => .bool
  | .integer _ => .integer
  | .number _ => .number
  | .string _ => .string

def Value.validate : Value → Except ModelError Unit
  | .number n => if n.isFinite then .ok () else .error .notFinite
  | _ => .ok ()

/-- The derived `PartialEq` of `Value`. -/
def Value.partialEq : Value → Value → Bool
  | .bool a, .bool b => a = b
  | .integer a, .integer b => a = b
  | .number a, .number b => a.eq b
  | .string a, .string b => a = b
  | _, _ => false

structure Permissions where
  read : Bool
  write : Bool
  observe : Bool
  deriving DecidableEq, Repr

def Permissions.any (p : Permissions) : Bool := p.read || p.write || p.observe

structure Capability where
  id : CapabilityId
  capabilityType : CapabilityType
  name : String
  kind : ValueKind
  permissions : Permissions
  initialValue : Value
  deriving DecidableEq

structure Device where
  id : DeviceId
  name : String
  manufacturer : String
  model : String
  capabilities : List Capability
  deriving DecidableEq

/-- The derived `PartialEq` of `Capability` and `Device`. -/
def Capability.partialEq (a b : Capability) : Bool :=
  a.id = b.id && a.capabilityType = b.capabilityType && a.name = b.name && a.kind = b.kind &&
    a.permissions = b.permissions && a.initialValue.partialEq b.initialValue

def Device.partialEq (a b : Device) : Bool :=
  a.id = b.id && a.name = b.name && a.manufacturer = b.manufacturer && a.model = b.model &&
    a.capabilities.isEqv b.capabilities Capability.partialEq

/-! ## The built-in capability types -/

inductive CapabilityRole where
  | actuator
  | sensor
  deriving DecidableEq, Repr

structure BuiltinCapability where
  capabilityType : CapabilityType
  kind : ValueKind
  role : CapabilityRole
  deriving DecidableEq

def switchOn : CapabilityType := ⟨"oikade.switch.on", by decide⟩
def lightOn : CapabilityType := ⟨"oikade.light.on", by decide⟩
def lightLevel : CapabilityType := ⟨"oikade.light.level", by decide⟩
def outletOn : CapabilityType := ⟨"oikade.outlet.on", by decide⟩
def temperature : CapabilityType := ⟨"oikade.sensor.temperature", by decide⟩
def relativeHumidity : CapabilityType := ⟨"oikade.sensor.relative-humidity", by decide⟩
def contactOpen : CapabilityType := ⟨"oikade.sensor.contact-open", by decide⟩
def occupancyDetected : CapabilityType := ⟨"oikade.sensor.occupancy-detected", by decide⟩

/-- 0.0 and 100.0. -/
def lightLevelMinimum : Float64 := ⟨0#64⟩
def lightLevelMaximum : Float64 := ⟨0x4059000000000000#64⟩

def builtinCapabilities : List BuiltinCapability :=
  [⟨switchOn, .bool, .actuator⟩, ⟨lightOn, .bool, .actuator⟩, ⟨lightLevel, .number, .actuator⟩,
   ⟨outletOn, .bool, .actuator⟩, ⟨temperature, .number, .sensor⟩,
   ⟨relativeHumidity, .number, .sensor⟩, ⟨contactOpen, .bool, .sensor⟩,
   ⟨occupancyDetected, .bool, .sensor⟩]

def lookupBuiltinCapability (capabilityType : CapabilityType) : Option BuiltinCapability :=
  builtinCapabilities.find? fun builtin => builtin.capabilityType = capabilityType

def BuiltinCapability.validateValue (b : BuiltinCapability) (value : Value) :
    Except ModelError Unit := do
  value.validate
  if value.kind ≠ b.kind then throw (.valueKind b.capabilityType.asStr b.kind value.kind)
  match value with
  | .number level =>
    if b.capabilityType = lightLevel ∧
        Float64.inRange lightLevelMinimum lightLevelMaximum level = false then
      throw (.levelRange b.capabilityType.asStr level)
  | _ => pure ()

/-! ## Validation of definitions -/

def Capability.validate (c : Capability) : Except ModelError Unit := do
  if (Text.trim c.name).isEmpty then throw (.capabilityName c.id.asStr)
  match lookupBuiltinCapability c.capabilityType with
  | some builtin =>
    if c.kind ≠ builtin.kind then
      throw (.capabilityKind c.id.asStr c.kind builtin.kind c.capabilityType.asStr)
  | none => pure ()
  if !c.permissions.any then throw (.noPermission c.id.asStr)
  c.initialValue.validate
  if c.initialValue.kind ≠ c.kind then
    throw (.initialKind c.id.asStr c.initialValue.kind c.kind)
  match lookupBuiltinCapability c.capabilityType with
  | some builtin => builtin.validateValue c.initialValue
  | none => pure ()

/-- The loop of `Device::validate`, with the identifiers seen so far. -/
def Device.validateCapabilities (device : DeviceId) :
    List CapabilityId → List Capability → Except ModelError Unit
  | _, [] => .ok ()
  | seen, c :: cs => do
    c.validate
    if c.id ∈ seen then throw (.duplicateCapability device.asStr c.id.asStr)
    validateCapabilities device (c.id :: seen) cs

def Device.validate (d : Device) : Except ModelError Unit := do
  if (Text.trim d.name).isEmpty then throw (.deviceName d.id.asStr)
  if d.capabilities.isEmpty then throw (.noCapability d.id.asStr)
  validateCapabilities d.id [] d.capabilities

/-- Why a value is refused: the three messages that `InvalidValue` carries. -/
inductive InvalidReason where
  | model (error : ModelError)
  /-- "capability .. requires .., got .." -/
  | kind (capability : String) (want kind : ValueKind)
  /-- "integration returned invalid value: .." -/
  | integration (reason : InvalidReason)
  deriving DecidableEq, Repr

/-- `validate_capability_value`. -/
def validateCapabilityValue (c : Capability) (value : Value) : Except InvalidReason Unit :=
  match lookupBuiltinCapability c.capabilityType with
  | some builtin => (builtin.validateValue value).mapError .model
  | none =>
    match value.validate with
    | .error e => .error (.model e)
    | .ok () =>
      if value.kind ≠ c.kind then .error (.kind c.id.asStr c.kind value.kind) else .ok ()

end Oikade.Core
