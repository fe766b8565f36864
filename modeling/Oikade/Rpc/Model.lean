/-
  The two ends of an adapter's RPC stream as one machine: the host's session
  (`oikade-adapter-host/src/session.rs`) with its outbound queue, its two loops and the tasks of
  `dispatch_command`, and the request loop of the Matter adapter (`oikade-matter-adapter/src/rpc.rs`,
  `run`) with its `pending` map and the commands that the bridge hands to it.

  A step is the code of one task from one await point to the next. `Session.Sys` is the session; the
  calls, the read loop and `fail` are its steps. The identifiers of the host are natural numbers (the
  source's are `u64`, one for each call of the session), those of the adapter wrap at `2 ^ 64`.

  * Each direction of the stream is one queue with the adapter's channel and thread at its end. What
    is written arrives in order (`Codec.Frames`), or the stream ends: `lose` is the read loop at such
    an end, `sever` the end of the adapter's writer thread.
  * The request loop is the only sender to its channel, so a send that has to wait is a later step.
    `leave` is a return of the loop that no frame causes.
  * What comes from outside is in the action: which calls are made and when they time out, what
    `handle_request` and `write_value` return, which commands the bridge has.
  * A task whose response does not encode fails the session and is at its end from then on.

  The frames carry who sent the request they are or answer, and `Ledger` records what was sent,
  answered and completed. No step reads either.
-/
import Oikade.Matter.Commands
import Oikade.Session.Model

namespace Oikade.Rpc

open Session (Sys CallId Envelope)
open Oikade.Core (RuntimeError)

/-- A command of the adapter: the other end of its `response` channel. -/
abbrev Token := Nat

/-- Code and message of a `ProtocolError`. -/
abbrev ProtocolError := String × String

structure CommandRequest where
  deviceId : String
  capabilityId : String
  value : Adapter.Value
  deriving DecidableEq, Repr

/-- What serde_json makes of the bodies of command frames, the texts of errors and `{:?}`. -/
structure Formats where
  encodeCommand : CommandRequest → Except String String
  decodeCommand : String → Except String CommandRequest
  encodeResponse : Adapter.Value → Except String String
  decodeResponse : String → Except String Adapter.Value
  modelError : Core.ModelError → String
  runtimeError : RuntimeError → String
  debug : String → String

def methodCommand : String := "command"

def methodShutdown : String := "shutdown"

/-! ## The command handler -/

section Handler

variable (F : Formats)

def payload {α : Type} (value : Option α) (kind : String) : Except String α :=
  match value with
  | some value => .ok value
  | none => .error (kind ++ " value has the wrong payload")

def valueFromApi (value : Adapter.Value) : Except String Core.Value := do
  let payloads := value.bool.isSome.toNat + value.integer.isSome.toNat +
    value.number.isSome.toNat + value.string.isSome.toNat
  if payloads ≠ 1 then throw "value must contain exactly one payload"
  let converted ←
    match value.kind with
    | "bool" => (payload value.bool "bool").map Core.Value.bool
    | "integer" => (payload value.integer "integer").map Core.Value.integer
    | "number" => (payload value.number "number").map Core.Value.number
    | "string" => (payload value.string "string").map Core.Value.string
    | other => .error ("unsupported value kind " ++ F.debug other)
  converted.validate.mapError F.modelError
  pure converted

/-- `RuntimeCommandHandler::handle` up to `write_value`. -/
def coreCommand (request : CommandRequest) : Except ProtocolError Core.Command := do
  let value ← (valueFromApi F request.value).mapError fun message => ("invalid_value", message)
  let deviceId ← (Core.Identifier.new request.deviceId).mapError fun e =>
    ("not_found", F.modelError e)
  let capabilityId ← (Core.Identifier.new request.capabilityId).mapError fun e =>
    ("not_found", F.modelError e)
  pure ⟨deviceId, capabilityId, value⟩

def runtimeError (error : RuntimeError) : ProtocolError :=
  let code := match error with
    | .notFound _ => "not_found"
    | .notWritable _ => "not_writable"
    | .invalidValue _ => "invalid_value"
    | .stopped => "unavailable"
    | _ => "command_failed"
  (code, F.runtimeError error)

/-- `RuntimeCommandHandler::handle` once `write_value` has returned. -/
def commandResponse (result : Except RuntimeError Core.Value) : Except ProtocolError Adapter.Value :=
  (result.mapError (runtimeError F)).map Adapter.valueToApi

end Handler

/-! ## The two processes -/

/-- A frame of the host: a request of call `k`, or a response to command `c`. -/
inductive HostFrame where
  | request (id : Nat) (method : String) (k : CallId)
  | response (e : Envelope) (c : Token)

/-- A frame of the adapter: `hello`, the request of command `c`, or a response to call `k`. -/
inductive AdapterFrame where
  | hello
  | request (id : Nat) (method : String) (body : Option String) (c : Token)
  | response (e : Envelope) (k : CallId)

/-- The await point at which a task of `dispatch_command` is suspended. -/
inductive TaskPc where
  /-- before its first poll -/
  | spawned
  /-- `write_value(..)`, with a permit -/
  | writing (command : Core.Command)
  /-- `respond`: `outbound.send(..)` -/
  | sending (e : Envelope) (permit : Bool)
  /-- it has returned without a response -/
  | ended

structure Task where
  id : Nat
  method : String
  body : Option String
  token : Token
  pc : TaskPc

def Task.permit (t : Task) : Bool :=
  match t.pc with
  | .writing _ => true
  | .sending _ permit => permit
  | .spawned | .ended => false

/-- The await point at which the request loop is suspended. -/
inductive Loop where
  | select
  /-- `handle_request(..)`, of the request of call `k` -/
  | handling (id : Nat) (method : String) (k : CallId)
  | exited

/-- The adapter's process. `writer` says whether the writer thread takes frames. -/
structure AdapterSide where
  loop : Loop
  pending : List (Nat × Token)
  nextRequestId : Nat
  commands : List (Token × CommandRequest)
  writer : Bool

structure Ledger where
  /-- the requests of calls that went into the outbound queue -/
  issued : List (CallId × Nat)
  /-- the adapter's responses, with the call whose request each of them answers -/
  handled : List (CallId × Envelope)
  /-- the responses that the read loop is done with, and the pending request each was handed to -/
  consumed : List (CallId × Option Nat)
  submitted : List (Token × CommandRequest)
  /-- the commands of which the request loop has sent a frame -/
  sent : List Token
  /-- what `write_value` was called with for a command and what it returned -/
  executed : Token → Option (Core.Command × Except RuntimeError Core.Value)
  /-- the commands to which a response went into the outbound queue -/
  replied : List Token
  /-- what a command was completed with, and the command whose response did it -/
  completed : List (Token × Except Unit Adapter.Value × Option Token)

structure World where
  host : Sys
  outbound : List HostFrame
  /-- the write loop takes frames -/
  writing : Bool
  tasks : List Task
  /-- the call whose response is in the hands of the read loop -/
  reading : Option CallId
  toAdapter : List HostFrame
  toHost : List AdapterFrame
  adapter : AdapterSide
  ledger : Ledger

/-- `Session::spawn` and `run` up to its loop: `hello` is on its way. -/
def World.spawn : World where
  host := Sys.spawn .adapter
  outbound := []
  writing := true
  tasks := []
  reading := none
  toAdapter := []
  toHost := [.hello]
  adapter := ⟨.select, [], 1, [], true⟩
  ledger := ⟨[], [], [], [], [], fun _ => none, [], []⟩

/-- `OUTBOUND_QUEUE` -/
def outboundQueue : Nat := 128

def maxInboundCalls : Nat := 128

/-! ## The host -/

namespace World

/-- A step of the session that concerns nothing else. -/
def session (w : World) (a : Session.Action) : Option World :=
  (Session.step w.host a).map fun host => { w with host }

/-- A call from one await point to the next. Its frame waits for room in the outbound queue. -/
def advance (w : World) (k : CallId) : Option World :=
  match w.host.calls[k]? with
  | some (.running request (.send id)) =>
    if w.writing ∧ w.outbound.length < outboundQueue then
      (Session.step w.host (.advance k)).map fun host =>
        { w with
          host
          outbound := w.outbound ++ [.request id request.method k]
          ledger := { w.ledger with issued := w.ledger.issued ++ [(k, id)] } }
    else none
  | _ => w.session (.advance k)

/-- The outbound queue is closed, or the deadline of a call passes. -/
def refuse (w : World) (k : CallId) : Option World :=
  match w.host.calls[k]? with
  | some (.running _ (.send _)) => if w.writing then none else w.session (.refuse k)
  | _ => w.session (.refuse k)

/-- The read loop takes a frame. -/
def receive (w : World) : Option World :=
  match w.host.reader, w.toHost with
  | .decoding, .hello :: rest =>
    { w with toHost := rest }.session (.receive (.notification ⟨.hello, some (.ok ()), true⟩))
  | .decoding, .response e k :: rest =>
    { w with toHost := rest, reading := some k }.session (.receive (.response e))
  | .decoding, .request id method body c :: rest =>
    -- `dispatch_command` spawns a task
    let tasks := if w.host.hello ∧ method = methodCommand then
      w.tasks ++ [⟨id, method, body, c, .spawned⟩] else w.tasks
    { w with toHost := rest, tasks }.session (.receive (.request id (method = methodCommand)))
  | _, _ => none

/-- The request that the read loop hands its response to. -/
def receiver (s : Sys) : Option Nat :=
  match s.reader with
  | .pending e => if e.id ∈ s.pending then some e.id else none
  | _ => none

/-- The read loop at a mutex. -/
def read (w : World) : Option World :=
  (Session.step w.host .read).map fun host =>
    match host.reader, w.reading with
    | .pending _, _ | _, none => { w with host }
    | _, some k =>
      { w with
        host
        reading := none
        ledger := { w.ledger with consumed := w.ledger.consumed ++ [(k, receiver w.host)] } }

def putTask (w : World) (i : Nat) (t : Task) (pc : TaskPc) : World :=
  { w with tasks := w.tasks.set i { t with pc } }

/-- `respond` with an error. -/
def respondError (w : World) (i : Nat) (t : Task) (error : ProtocolError) (permit : Bool) : World :=
  w.putTask i t (.sending ⟨t.id, t.method, none, some error⟩ permit)

/-- A task of `dispatch_command` up to its first await point. -/
def dispatch (F : Formats) (w : World) (i : Nat) (t : Task) : World :=
  if w.tasks.countP Task.permit < maxInboundCalls then
    match t.body with
    | none => w.respondError i t ("invalid_request", "adapter command body is required") true
    | some body => match F.decodeCommand body with
      | .error message => w.respondError i t ("invalid_request", message) true
      | .ok request => match coreCommand F request with
        | .error error => w.respondError i t error true
        | .ok command => w.putTask i t (.writing command)
  else w.respondError i t ("busy", "adapter command concurrency limit reached") false

def execute (w : World) (c : Token) (command : Core.Command)
    (result : Except RuntimeError Core.Value) : World :=
  { w with ledger := { w.ledger with
    executed := Function.update w.ledger.executed c (some (command, result)) } }

/-- A task once `write_value` has returned. -/
def written (F : Formats) (w : World) (i : Nat) (t : Task) (command : Core.Command)
    (result : Except RuntimeError Core.Value) : Option World :=
  let w := w.execute t.token command result
  match commandResponse F result with
  | .error error => some (w.respondError i t error true)
  | .ok value => match F.encodeResponse value with
    | .error message => (w.putTask i t .ended).session (.fail message)
    | .ok body => some (w.putTask i t (.sending ⟨t.id, t.method, some body, none⟩ true))

/-- The outbound queue takes the response of a task, or is closed. -/
def reply (w : World) (i : Nat) (t : Task) (e : Envelope) : Option World :=
  if w.writing then
    if w.outbound.length < outboundQueue then
      some { w with
        outbound := w.outbound ++ [.response e t.token]
        tasks := w.tasks.eraseIdx i
        ledger := { w.ledger with replied := w.ledger.replied ++ [t.token] } }
    else none
  else some (w.putTask i t .ended)

/-- The write loop encodes a frame. -/
def write (w : World) : Option World :=
  match w.writing, w.outbound with
  | true, frame :: rest => some { w with outbound := rest, toAdapter := w.toAdapter ++ [frame] }
  | _, _ => none

/-! ## The adapter -/

def complete (w : World) (c : Token) (result : Except Unit Adapter.Value) (source : Option Token) :
    World :=
  { w with ledger := { w.ledger with completed := w.ledger.completed ++ [(c, result, source)] } }

def exit (w : World) : World := { w with adapter := { w.adapter with loop := .exited } }

/-- The value of a response to a command. -/
def effective (F : Formats) (e : Envelope) : Except Unit Adapter.Value :=
  if e.error.isSome then .error ()
  else match e.body with
    | none => .error ()
    | some body => (F.decodeResponse body).mapError fun _ => ()

/-- The request loop takes a frame. -/
def take (F : Formats) (w : World) : Option World :=
  match w.adapter.loop, w.toAdapter with
  | .select, .request id method k :: rest =>
    some { w with toAdapter := rest, adapter := { w.adapter with loop := .handling id method k } }
  | .select, .response e c :: rest =>
    let w := { w with toAdapter := rest }
    some (if e.method ≠ methodCommand then w.exit
      else match w.adapter.pending.find? fun p => p.1 = e.id with
        | none => w.exit
        | some (_, c') =>
          { w with adapter := { w.adapter with
            pending := w.adapter.pending.eraseP fun p => p.1 = e.id } }.complete c' (effective F e)
              (some c))
  | _, _ => none

/-- The frame of `send_response` or `send_error`. -/
def responseTo (id : Nat) (method : String) : Except ProtocolError String → Envelope
  | .ok body => ⟨id, method, some body, none⟩
  | .error error => ⟨id, method, none, some error⟩

/-- `handle_request` has returned. -/
def answer (w : World) (outcome : Except ProtocolError String) : Option World :=
  match w.adapter.loop with
  | .handling id method k => some
    (if w.adapter.writer then
      let e := responseTo id method outcome
      { w with
        toHost := w.toHost ++ [.response e k]
        adapter := { w.adapter with loop := if method = methodShutdown then .exited else .select }
        ledger := { w.ledger with handled := w.ledger.handled ++ [(k, e)] } }
    else w.exit)
  | _ => none

/-- The request loop takes a command. -/
def forward (F : Formats) (w : World) : Option World :=
  match w.adapter.loop, w.adapter.commands with
  | .select, (c, request) :: rest =>
    let w := { w with adapter := { w.adapter with commands := rest } }
    some (if Matter.maxPendingCommands ≤ w.adapter.pending.length then w.complete c (.error ()) none
      else
        let id := Matter.World.freeId w.adapter.pending (Matter.maxPendingCommands + 1)
          w.adapter.nextRequestId
        let w := { w with adapter := { w.adapter with nextRequestId := (id + 1) % 2 ^ 64 } }
        match F.encodeCommand request, w.adapter.writer with
        | .ok body, true =>
          { w with
            toHost := w.toHost ++ [.request id methodCommand (some body) c]
            adapter := { w.adapter with pending := w.adapter.pending ++ [(id, c)] }
            ledger := { w.ledger with sent := w.ledger.sent ++ [c] } }
        -- the frame is not sent: the entry is taken back
        | _, _ => (w.complete c (.error ()) none).exit)
  | _, _ => none

/-- `BridgeState::command`: the channel takes a command. -/
def submit (w : World) (c : Token) (request : CommandRequest) : Option World :=
  if c ∉ w.ledger.submitted.map Prod.fst ∧ w.adapter.commands.length < Matter.commandCapacity then
    some { w with
      adapter := { w.adapter with commands := w.adapter.commands ++ [(c, request)] }
      ledger := { w.ledger with submitted := w.ledger.submitted ++ [(c, request)] } }
  else none

end World

/-! ## The machine -/

inductive Action where
  | start (k : CallId) (request : Session.Request)
  | advance (k : CallId)
  | refuse (k : CallId)
  | drop (k : CallId)
  | receive
  /-- the stream ends, or a frame does not decode -/
  | lose (message : Option String)
  | read
  /-- another task fails the session -/
  | fail (message : String)
  | drain
  | setPid (pid : Nat)
  | dispatch (i : Nat)
  | written (i : Nat) (result : Except RuntimeError Core.Value)
  | reply (i : Nat)
  | write
  /-- a frame does not encode: the write loop returns -/
  | writeError (message : String)
  | submit (c : Token) (request : CommandRequest)
  | take
  | answer (outcome : Except ProtocolError String)
  | forward
  | leave
  | sever

/-- The end of the stream as the read loop sees it. -/
def lost : Option String → Session.Frame
  | none => .closed
  | some message => .invalid message

def step (F : Formats) (w : World) : Action → Option World
  | .start k request => w.session (.start k request)
  | .advance k => w.advance k
  | .refuse k => w.refuse k
  | .drop k => w.session (.drop k)
  | .receive => w.receive
  | .lose message => w.session (.receive (lost message))
  | .read => w.read
  | .fail message => w.session (.fail message)
  | .drain => w.session .drain
  | .setPid pid => w.session (.setPid pid)
  | .dispatch i => match w.tasks[i]? with
    | some t => match t.pc with
      | .spawned => some (w.dispatch F i t)
      | _ => none
    | none => none
  | .written i result => match w.tasks[i]? with
    | some t => match t.pc with
      | .writing command => w.written F i t command result
      | _ => none
    | none => none
  | .reply i => match w.tasks[i]? with
    | some t => match t.pc with
      | .sending e _ => w.reply i t e
      | _ => none
    | none => none
  | .write => w.write
  | .writeError message =>
    if w.writing then { w with writing := false }.session (.fail message) else none
  | .submit c request => w.submit c request
  | .take => w.take F
  | .answer outcome => w.answer outcome
  | .forward => w.forward F
  | .leave => some w.exit
  | .sever => some { w with adapter := { w.adapter with writer := false } }

abbrev run (F : Formats) : World → List Action → Option World := Machine.run (step F)

end Oikade.Rpc
