/-
  The configuration (`oikade-config/src/lib.rs`): its records and `validate`.

  Paths come from a YAML document, so a path is a text. The free `config` table of a plugin is left
  out: the daemon hands it on and nothing here reads it. An error keeps what its message is made of;
  where the message names a field, the field's path is kept as the source spells it.
-/
import Oikade.Core.Model
import Oikade.Lib.Fallible

namespace Oikade

open Oikade.Core (ModelError validateIdentifier)

/-! ## Records -/

def Config.currentVersion : Nat := 1

structure RuntimeConfig where
  logLevel : String := "info"
  stateDir : String := ""
  adminSocket : String := ""
  deriving DecidableEq, Repr

structure VirtualSwitchConfig where
  id : String
  name : String
  initialOn : Bool := false
  deriving DecidableEq, Repr

structure PluginConfig where
  id : String
  artifact : String
  deriving DecidableEq, Repr

structure MatterCommissioningConfig where
  setupPasscode : String := ""
  discriminator : Option UInt16 := none
  deriving DecidableEq, Repr

structure MatterAdapterConfig where
  enabled : Bool := false
  executable : String := ""
  logLevel : String := "info"
  commissioning : MatterCommissioningConfig := {}
  deriving DecidableEq, Repr

/-- `Config`, with `integrations.virtual.switches` and `adapters.matter` as fields of its own. -/
structure Config where
  version : Nat := Config.currentVersion
  runtime : RuntimeConfig := {}
  switches : List VirtualSwitchConfig := []
  plugins : List PluginConfig := []
  matter : MatterAdapterConfig := {}
  deriving DecidableEq, Repr

/-! ## Validation -/

/-- `ConfigError::Invalid`, by what its message says. -/
inductive ConfigError where
  /-- "version must be 1, got .." -/
  | version (got : Nat)
  /-- ".. must be .., .." -/
  | logLevel (path : String) (accepted : List String)
  /-- ".. must not have leading or trailing whitespace" -/
  | padded (path : String)
  /-- "..: .." -/
  | identifier (path : String) (error : ModelError)
  /-- ".. must be non-empty without leading or trailing whitespace" -/
  | emptyOrPadded (path : String)
  /-- ".. duplicates .." -/
  | duplicate (path : String) (id : String)
  /-- ".. is required when Matter is enabled" -/
  | required (path : String)
  /-- "adapters.matter.commissioning.discriminator must be between 0 and 4095" -/
  | configuredDiscriminator
  /-- "Matter setup passcode must contain exactly eight decimal digits" -/
  | passcodeDigits
  /-- "Matter setup passcode must be between 00000001 and 99999998" -/
  | passcodeRange
  /-- "Matter setup passcode is prohibited by the Matter specification" -/
  | passcodeProhibited
  /-- "Matter discriminator must be between 0 and 4095" -/
  | discriminator
  deriving DecidableEq, Repr

def Config.normalizedLogLevel (value path : String) (accepted : List String) :
    Except ConfigError String :=
  let value := Text.toAsciiLowercase (Text.trim value)
  if value ∈ accepted then .ok value else .error (.logLevel path accepted)

def Config.validateUnpaddedPath (path name : String) : Except ConfigError Unit :=
  if path ≠ Text.trim path then .error (.padded name) else .ok ()

def Config.prohibitedPasscodes : List Nat :=
  [11111111, 22222222, 33333333, 44444444, 55555555, 66666666, 77777777, 88888888, 12345678,
   87654321]

def Config.validateCommissioning (passcode : String) (discriminator : UInt16) :
    Except ConfigError Unit :=
  if passcode.utf8ByteSize ≠ 8 || !passcode.toList.all Text.isAsciiDigit then
    .error .passcodeDigits
  else
    let value := Text.decimal passcode
    if value = 0 || 99999998 < value then .error .passcodeRange
    else if value ∈ prohibitedPasscodes then .error .passcodeProhibited
    else if 4095 < discriminator then .error .discriminator
    else .ok ()

/-- The loop over the switches, from an index on, with the identifiers seen so far. -/
def Config.validateSwitches : Nat → List String → List VirtualSwitchConfig → Except ConfigError Unit
  | _, _, [] => .ok ()
  | index, seen, switch :: switches => do
    let path := s!"integrations.virtual.switches[{index}]"
    (validateIdentifier switch.id).mapError (.identifier (path ++ ".id"))
    if (Text.trim switch.name).isEmpty || switch.name ≠ Text.trim switch.name then
      throw (.emptyOrPadded (path ++ ".name"))
    if switch.id ∈ seen then throw (.duplicate (path ++ ".id") switch.id)
    validateSwitches (index + 1) (switch.id :: seen) switches

/-- The loop over the plugins. -/
def Config.validatePlugins : Nat → List String → List PluginConfig → Except ConfigError Unit
  | _, _, [] => .ok ()
  | index, seen, plugin :: plugins => do
    let path := s!"plugins[{index}]"
    (validateIdentifier plugin.id).mapError (.identifier (path ++ ".id"))
    if plugin.artifact.isEmpty then throw (.emptyOrPadded (path ++ ".artifact"))
    validateUnpaddedPath plugin.artifact (path ++ ".artifact")
    if plugin.id ∈ seen then throw (.duplicate (path ++ ".id") plugin.id)
    validatePlugins (index + 1) (plugin.id :: seen) plugins

def Config.validateMatter (matter : MatterAdapterConfig) : Except ConfigError MatterAdapterConfig := do
  validateUnpaddedPath matter.executable "adapters.matter.executable"
  let logLevel ← normalizedLogLevel matter.logLevel "adapters.matter.log_level"
    ["none", "error", "info", "debug"]
  if matter.enabled && matter.commissioning.setupPasscode.isEmpty then
    throw (.required "adapters.matter.commissioning.setup_passcode")
  if matter.enabled && matter.commissioning.discriminator.isNone then
    throw (.required "adapters.matter.commissioning.discriminator")
  if !matter.commissioning.setupPasscode.isEmpty then
    validateCommissioning matter.commissioning.setupPasscode
      (matter.commissioning.discriminator.getD 0)
  else if matter.commissioning.discriminator.any (4095 < ·) then
    throw .configuredDiscriminator
  pure { matter with logLevel }

/-- `validate`: the configuration with its log levels normalized. -/
def Config.validate (config : Config) : Except ConfigError Config := do
  if config.version ≠ currentVersion then throw (.version config.version)
  let logLevel ← normalizedLogLevel config.runtime.logLevel "runtime.log_level"
    ["debug", "info", "warn", "error"]
  validateUnpaddedPath config.runtime.stateDir "runtime.state_dir"
  validateUnpaddedPath config.runtime.adminSocket "runtime.admin_socket"
  validateSwitches 0 [] config.switches
  validatePlugins 0 [] config.plugins
  let matter ← validateMatter config.matter
  pure { config with runtime := { config.runtime with logLevel }, matter }

/-! ## What is accepted -/

theorem Config.validatePlugins_ok {plugins : List PluginConfig} {index : Nat} {seen : List String}
    (h : validatePlugins index seen plugins = .ok ()) :
    ∀ plugin ∈ plugins, validateIdentifier plugin.id = .ok () := by
  induction plugins generalizing index seen with
  | nil => simp
  | cons plugin plugins ih =>
    unfold validatePlugins at h
    obtain ⟨⟨⟩, hid, h⟩ := Fallible.bind_ok.mp h
    obtain ⟨-, h⟩ := Fallible.check_ok.mp h
    obtain ⟨⟨⟩, -, h⟩ := Fallible.bind_ok.mp h
    obtain ⟨-, h⟩ := Fallible.check_ok.mp h
    exact List.forall_mem_cons.mpr ⟨Fallible.mapError_ok.mp hid, ih h⟩

theorem Config.validateSwitches_ok {switches : List VirtualSwitchConfig} {index : Nat}
    {seen : List String} (h : validateSwitches index seen switches = .ok ()) :
    (∀ switch ∈ switches, validateIdentifier switch.id = .ok () ∧
        (Text.trim switch.name).isEmpty = false) ∧
      (switches.map VirtualSwitchConfig.id).Nodup ∧ ∀ switch ∈ switches, switch.id ∉ seen := by
  induction switches generalizing index seen with
  | nil => simp
  | cons switch switches ih =>
    unfold validateSwitches at h
    obtain ⟨⟨⟩, hid, h⟩ := Fallible.bind_ok.mp h
    obtain ⟨hname, h⟩ := Fallible.check_ok.mp h
    obtain ⟨hseen, h⟩ := Fallible.check_ok.mp h
    obtain ⟨hall, hnodup, hunseen⟩ := ih h
    have hname' : (Text.trim switch.name).isEmpty = false := by
      cases he : (Text.trim switch.name).isEmpty with
      | false => rfl
      | true => simp [he] at hname
    refine ⟨List.forall_mem_cons.mpr ⟨⟨Fallible.mapError_ok.mp hid, hname'⟩, hall⟩, ?_, ?_⟩
    · rw [List.map_cons, List.nodup_cons]
      refine ⟨fun hmem => ?_, hnodup⟩
      obtain ⟨other, hother, heq⟩ := List.mem_map.mp hmem
      exact hunseen other hother (heq ▸ List.mem_cons_self)
    · refine List.forall_mem_cons.mpr ⟨hseen, fun other hother hold => ?_⟩
      exact hunseen other hother (List.mem_cons_of_mem _ hold)

/-- The lists of an accepted configuration have passed their loops. -/
theorem Config.validate_lists {config normalized : Config} (h : config.validate = .ok normalized) :
    validateSwitches 0 [] config.switches = .ok () ∧ validatePlugins 0 [] config.plugins = .ok () := by
  unfold validate at h
  obtain ⟨-, h⟩ := Fallible.check_ok.mp h
  obtain ⟨_, -, h⟩ := Fallible.bind_ok.mp h
  obtain ⟨⟨⟩, -, h⟩ := Fallible.bind_ok.mp h
  obtain ⟨⟨⟩, -, h⟩ := Fallible.bind_ok.mp h
  obtain ⟨⟨⟩, hswitches, h⟩ := Fallible.bind_ok.mp h
  obtain ⟨⟨⟩, hplugins, -⟩ := Fallible.bind_ok.mp h
  exact ⟨hswitches, hplugins⟩

/-- The instance identifiers that some configuration gives a plugin. -/
def InstanceId (id : String) : Prop :=
  ∃ config normalized : Config, config.validate = .ok normalized ∧
    ∃ plugin ∈ config.plugins, plugin.id = id

theorem InstanceId.valid {id : String} (h : InstanceId id) : validateIdentifier id = .ok () := by
  obtain ⟨config, normalized, hv, plugin, hp, rfl⟩ := h
  exact Config.validatePlugins_ok (Config.validate_lists hv).2 plugin hp

end Oikade
