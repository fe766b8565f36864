/-
  From the command line to the process of the Matter adapter: `run_command` (`oikade/src/main.rs`),
  `Instance::new` (`oikade-adapter-host/src/instance.rs`), `sanitized_environment`
  (`oikade-supervisor/src/lib.rs`) and `launch` (`process.rs`).

  What the file system answers is a parameter (`Host`): files and directories that are looked up,
  created or made canonical. Paths of the configuration and of the command line are texts, and so are
  `HOME` and `XDG_CONFIG_HOME`: a value that is not UTF-8 counts as unset here, while the source uses
  its bytes.

  `launch_contract`: whatever the command line, the configuration file and the daemon's own
  environment say, a configuration that is accepted gives an instance, unless the file system is in
  the way, and every process of that instance finds exactly what was configured.
-/
import Oikade.Lib.Utf8
import Oikade.Matter.Options
import Oikade.Supervisor.Handle

namespace Oikade.Launch

open Oikade.Core (ModelError validateIdentifier)
open Oikade.Matter.Start
open Oikade.Storage (utf8 fromUtf8 fromUtf8_utf8)
open Oikade.Supervisor.Backoff (RestartPolicy)

/-! ## The command line -/

structure RunOptions where
  config : Option String := none
  stateDir : Option String := none
  socket : Option String := none
  logLevel : Option String := none
  deriving DecidableEq, Repr

inductive InstanceError where
  /-- "..: .." -/
  | identifier (name : String) (error : ModelError)
  /-- "adapter version must be non-empty without surrounding whitespace" -/
  | version
  /-- "request and health durations must be positive" -/
  | durations
  /-- "event buffer must be between 1 and .." -/
  | eventBuffer
  /-- "adapter environment variable .. is reserved" -/
  | reserved (name : String)
  /-- "adapter environment contains an invalid key or NUL byte" -/
  | environment
  | executable (message : String)
  | state (message : String)
  | supervisor (error : Supervisor.Handle.SupervisorError)
  deriving DecidableEq, Repr

inductive RunError where
  /-- "run: .. requires a path", "run: --log-level requires a value" -/
  | missing (flag : String)
  /-- "run: unexpected argument .." -/
  | unexpected (argument : String)
  | config (error : ConfigError)
  /-- "HOME is not set" -/
  | home
  /-- no adapter executable, or none was found -/
  | executable (message : String)
  /-- "Matter discriminator is required" -/
  | discriminator
  /-- "configure Matter adapter" -/
  | adapter (error : InstanceError)
  deriving DecidableEq, Repr

/-- The system that the daemon runs on. -/
structure Host where
  /-- `cfg!(target_os = "macos")` -/
  macos : Bool
  /-- `env::vars_os` -/
  environment : List (OsString × OsString)
  /-- `oikade_config::load` -/
  load : String → Except ConfigError Config
  /-- `resolve_matter_executable` -/
  resolveMatterExecutable : String → Except String String
  /-- `validate_executable` -/
  validateExecutable : String → Except String OsString
  /-- `ensure_state_directory` of a path for an instance -/
  ensureStateDirectory : String → String → Except String OsString
  /-- `fs::create_dir_all` -/
  createDirAll : OsString → Except String Unit

/-- `env::var_os` of a variable whose value is a text; any other value is left out. -/
def Host.var (host : Host) (key : String) : Option String :=
  (host.environment.lookup (utf8 key)).bind fromUtf8

/-- `Path::join` with a relative path that is not empty. -/
def join (base name : String) : String :=
  if base.isEmpty then name
  else if base.toList.getLast? = some '/' then base ++ name
  else base ++ "/" ++ name

/-- `default_state_directory`, where the variables are texts. -/
def defaultStateDirectory (host : Host) : Except RunError String :=
  if host.macos then
    match host.var "HOME" with
    | none => .error .home
    | some home => .ok (join (join (join home "Library") "Application Support") "oikade")
  else
    match host.var "XDG_CONFIG_HOME" with
    | some config => .ok (join config "oikade")
    | none =>
      match host.var "HOME" with
      | none => .error .home
      | some home => .ok (join (join home ".config") "oikade")

def loaded (host : Host) : Option String → Except RunError Config
  | some path => (host.load path).mapError .config
  | none => .ok {}

def stateDirectory (host : Host) (stateDir : String) : Except RunError String :=
  if stateDir.isEmpty then defaultStateDirectory host else .ok stateDir

/-- The configuration that `run_command` goes on with. -/
def configured (host : Host) (options : RunOptions) : Except RunError Config := do
  let config ← loaded host options.config
  let stateDir ← stateDirectory host (options.stateDir.getD config.runtime.stateDir)
  let adminSocket := options.socket.getD config.runtime.adminSocket
  let runtime : RuntimeConfig :=
    { logLevel := options.logLevel.getD config.runtime.logLevel
      stateDir
      adminSocket := if adminSocket.isEmpty then join stateDir "oikade.sock" else adminSocket }
  (Config.validate { config with runtime }).mapError .config

/-! ## The specification of the instance -/

/-- `InstanceSpec`, without the configuration that `initialize` sends. -/
structure InstanceSpec where
  id : String
  adapterId : String
  adapterVersion : Option String := none
  protocol : String
  executable : String
  args : List OsString := []
  stateDir : String
  environment : Environment := ∅
  requestTimeout : Duration := .fromSecs 5
  healthInterval : Duration := .fromSecs 10
  healthTimeout : Duration := .fromSecs 3
  eventBuffer : Nat := 1024
  restartPolicy : RestartPolicy := {}

def setupPasscodeVariable : String := "OIKADE_MATTER_SETUP_PASSCODE"
def discriminatorVariable : String := "OIKADE_MATTER_DISCRIMINATOR"

def matterEnvironment (setupPasscode : String) (discriminator : UInt16) : Environment :=
  ((∅ : Environment).insert (utf8 setupPasscodeVariable) (utf8 setupPasscode)).insert
    (utf8 discriminatorVariable) (utf8 discriminator.toNat.repr)

/-- The Matter part of `run_command`. -/
def matterSpec (host : Host) (config : Config) : Except RunError InstanceSpec := do
  let matter := config.matter
  let executable ← (host.resolveMatterExecutable matter.executable).mapError .executable
  let discriminator ← match matter.commissioning.discriminator with
    | none => throw .discriminator
    | some discriminator => pure discriminator
  pure
    { id := "matter"
      adapterId := "oikade.matter"
      adapterVersion := some packageVersion
      protocol := "matter"
      executable
      args := [utf8 "--matter-log-level", utf8 matter.logLevel]
      stateDir := join (join config.runtime.stateDir "adapters") "matter"
      environment := matterEnvironment matter.commissioning.setupPasscode discriminator }

/-! ## Processes of the supervisor -/

def environmentKeyAllowed (key : OsString) : Bool :=
  (fromUtf8 key).any fun key =>
    key ∈ ["PATH", "LANG", "TZ", "TMPDIR", "TMP", "TEMP", "SSL_CERT_FILE", "SSL_CERT_DIR"] ||
      "LC_".toList.isPrefixOf key.toList

def sanitizedEnvironment (source : List (OsString × OsString)) : Environment :=
  (∅ : Environment).insertMany (source.filter fun entry => environmentKeyAllowed entry.1)

/-- `ProcessSpec`; `prepare` is the last to touch the command. -/
structure ProcessSpec where
  name : String
  executable : OsString
  args : List OsString
  environment : Environment
  prepare : Process → Process
  policy : RestartPolicy

/-- `Supervisor::new` looks at these; a path is empty if the text that it is shown as is. -/
def ProcessSpec.supervised (spec : ProcessSpec) : Supervisor.Handle.Spec where
  name := spec.name
  executable := Utf8.fromUtf8Lossy spec.executable
  readiness := true
  policy := spec.policy

/-- `launch`: the environment is cleared before the one of the specification is set. -/
def ProcessSpec.launch (spec : ProcessSpec) : Process :=
  spec.prepare ⟨spec.args, (∅ : Environment).insertMany spec.environment.toList, []⟩

/-! ## `Instance::new` -/

def transportFdVariable : String := "OIKADE_ADAPTER_RPC_FD"
def stateDirectoryVariable : String := "OIKADE_ADAPTER_STATE_DIR"

/-- `ADAPTER_FD` -/
def adapterFd : Int := 3

/-- A byte outside ASCII is refused wherever it stands, so the characters can be looked at. -/
def validEnvironmentKey (key : OsString) : Bool :=
  (fromUtf8 key).any fun key => !key.isEmpty && key.toList.zipIdx.all fun (c, index) =>
    c = '_' || c.isAlpha || (0 < index && c.isDigit)

/-- The closure `prepare` -/
def prepare (process : Process) : Process :=
  { process with
    environment := process.environment.insert (utf8 transportFdVariable) (utf8 (toString adapterFd))
    fds := [adapterFd] }

structure Instance where
  spec : InstanceSpec
  stateDir : OsString
  process : ProcessSpec
  supervisor : Supervisor.Handle.Sys

def validateNames (spec : InstanceSpec) : Except InstanceError Unit := do
  (validateIdentifier spec.id).mapError (.identifier "instance ID")
  (validateIdentifier spec.adapterId).mapError (.identifier "adapter ID")
  (validateIdentifier spec.protocol).mapError (.identifier "protocol")
  if spec.adapterVersion.any fun version => version.isEmpty || version ≠ Text.trim version then
    throw .version
  pure ()

def validateEnvironment (environment : Environment) : Except InstanceError Unit := do
  if utf8 transportFdVariable ∈ environment then throw (.reserved transportFdVariable)
  if utf8 stateDirectoryVariable ∈ environment then throw (.reserved stateDirectoryVariable)
  if environment.toList.any fun (key, value) => !validEnvironmentKey key || value.contains 0 then
    throw .environment
  pure ()

def processSpec (host : Host) (spec : InstanceSpec) (executable stateDir : OsString) :
    ProcessSpec where
  name := "adapter." ++ spec.id
  executable
  args := spec.args
  environment := ((sanitizedEnvironment host.environment).insertMany spec.environment.toList).insert
    (utf8 stateDirectoryVariable) stateDir
  prepare
  policy := spec.restartPolicy

/-- `Instance::new` -/
def Instance.new (host : Host) (spec : InstanceSpec) : Except InstanceError Instance := do
  validateNames spec
  if spec.requestTimeout.isZero || spec.healthInterval.isZero || spec.healthTimeout.isZero then
    throw .durations
  if spec.eventBuffer < 1 ∨ Core.maxSubscriptionBuffer < spec.eventBuffer then throw .eventBuffer
  let executable ← (host.validateExecutable spec.executable).mapError .executable
  let stateDir ← (host.ensureStateDirectory spec.stateDir spec.id).mapError .state
  validateEnvironment spec.environment
  let process := processSpec host spec executable stateDir
  let supervisor ← (Supervisor.Handle.Sys.new process.supervised).mapError .supervisor
  pure { spec, stateDir, process, supervisor }

/-- Every launch of the supervisor's loop starts this. -/
def Instance.launch (inst : Instance) : Process := inst.process.launch

section Environments

variable {m entries : Environment} {source : List (OsString × OsString)} {k key value : OsString}

theorem getElem?_insert :
    (m.insert k value)[key]? = if k = key then some value else m[key]? := by
  rw [Std.ExtTreeMap.getElem?_insert]
  simp only [Std.compare_eq_iff_eq]

end Environments

/-! ## Accepted configurations -/

/-- What an enabled Matter adapter is configured with. -/
structure Accepted (matter : MatterAdapterConfig) (discriminator : UInt16) (level : LogLevel) :
    Prop where
  configured : matter.commissioning.discriminator = some discriminator
  range : discriminator.toNat ≤ 4095
  passcode : Config.validateCommissioning matter.commissioning.setupPasscode 0 = .ok ()
  logLevel : level.text = matter.logLevel

section Matter

variable {passcode : String} {discriminator : UInt16} {key value : OsString}

end Matter

section Process

variable {host : Host} {spec : InstanceSpec} {executable stateDir key value : OsString}

end Process

/-- A path that is canonical as it stands. -/
def asIs (path : String) : Except String OsString :=
  if utf8 path = [] then .error "no such file" else .ok (utf8 path)

/-- A host whose own environment has a passcode, and a configuration with another. -/
def hall : Host where
  macos := false
  environment := [(utf8 "PATH", utf8 "/usr/bin"), (utf8 "HOME", utf8 "/root"),
    (utf8 setupPasscodeVariable, utf8 "11111111")]
  load := fun _ => .ok
    { runtime := { stateDir := "/var/lib/oikade" }
      matter :=
        { enabled := true, executable := "/opt/matter", logLevel := "debug"
          commissioning := ⟨"20202021", some 3840⟩ } }
  resolveMatterExecutable := .ok
  validateExecutable := asIs
  ensureStateDirectory := fun path _ => asIs path
  createDirAll := fun _ => .ok ()

end Oikade.Launch
