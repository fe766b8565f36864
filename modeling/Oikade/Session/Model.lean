/-
  The host side of an RPC session with a child process (`oikade-plugin-host/src/session.rs` and
  `oikade-adapter-host/src/session.rs`): calls that wait for the response to their request, the read
  loop that hands responses to them, and `fail`.

  A step is the code of one task from one await point to the next. The two maps `pending` and
  `ignored` have a mutex each, which no task holds across an await point, so every section under one
  of them is one step. The steps of a call are its `Pc`, those of the read loop its `Reader`.

  Left to the environment: whether the outbound queue takes a frame (`refuse` is a queue that is
  closed, or full where the code does not wait), when a deadline passes (`refuse` at `wait`), which
  frames arrive, and the other tasks that fail the session (the write loop, the supervising
  instance). What a frame's body decodes to is fixed with the call or the frame. The identifiers are
  natural numbers: the source's are `u64`.

  `history` records the requests that went out, the responses that came in and which of them were
  classified as responses to an unknown request; no step reads it.
-/
import Oikade.Lib.Machine
import Std.Data.ExtTreeMap
import Std.Data.ExtTreeSet

namespace Oikade.Session

/-- Whose session it is. -/
inductive Host where
  | plugin
  | adapter
  deriving DecidableEq, Repr

/-- `MAX_PENDING_REQUESTS` of the plugin host, `MAX_PENDING_CALLS` of the adapter host. -/
def maxPendingCalls : Nat := 1024

def maxIgnoredResponses : Nat := 2048

/-- The notifications of a child. -/
inductive Note where
  | hello
  | event
  | reconcile
  | other (method : String)
  deriving DecidableEq, Repr

/-- Why a session has failed. -/
inductive Failure where
  /-- ".. closed the RPC transport" -/
  | closedTransport
  /-- ".. abandoned response limit reached" -/
  | abandonedLimit
  /-- "plugin ignored response limit reached" -/
  | ignoredLimit
  /-- "plugin response has unknown request ID ..", "adapter response references unknown request .." -/
  | unknownRequest (id : Nat)
  /-- "response method .. does not match request .." -/
  | responseMethod (got want : String)
  /-- "plugin .. notification body is required", "adapter hello body is required" -/
  | notificationBody (note : Note)
  /-- "plugin sent duplicate hello" -/
  | duplicateHello
  /-- "plugin event queue is full", "plugin reconciliation queue is full" -/
  | queueFull (note : Note)
  /-- "plugin sent notification before hello" -/
  | beforeHello
  /-- "unsupported unsolicited plugin method .." -/
  | unsupportedMethod (method : String)
  /-- "adapter sent an unsupported or duplicate notification" -/
  | unsupportedNotification
  /-- "adapter sent traffic before hello or an unsupported request" -/
  | unsupportedTraffic
  /-- the text of another error -/
  | other (message : String)
  deriving DecidableEq, Repr

inductive SessionError where
  /-- without a failure: ".. session closed" -/
  | closed (failure : Option Failure)
  | protocol (code message : String)
  | timeout
  | pendingLimit
  | invalid (message : String)
  /-- an `Invalid` with the text of `Failure.responseMethod` -/
  | responseMethod (got want : String)
  deriving DecidableEq, Repr

/-- A response frame. -/
structure Envelope where
  id : Nat
  method : String
  body : Option String
  error : Option (String × String)
  deriving DecidableEq, Repr

/-- A notification frame: whether it has a body and what that decodes to, and whether the queue of
    notifications has room. -/
structure Notification where
  note : Note
  body : Option (Except String Unit)
  room : Bool

inductive Frame where
  | notification (n : Notification)
  | response (e : Envelope)
  /-- a request of an adapter, and whether its method is the command method -/
  | request (id : Nat) (command : Bool)
  /-- the end of the stream -/
  | closed
  /-- a frame that does not decode -/
  | invalid (message : String)

/-- What a call is made with: its method, what its request encodes to, and how the body of its
    response decodes. -/
structure Request where
  method : String
  encoded : Except String Unit
  decode : String → Except String String

abbrev CallId := Nat
abbrev Outcome := Except SessionError String

/-- Where a call goes on after `fail`. -/
inductive Resume where
  | abandoned
  | ret (outcome : Outcome)

/-- The await point at which a call is suspended. -/
inductive Pc where
  /-- `call`: `pending.lock()` -/
  | insert (id : Nat)
  /-- `call`: `outbound.send(..)` -/
  | send (id : Nat)
  /-- `call`: `pending.lock()` after a send that failed -/
  | unsend (id : Nat)
  /-- `call`: `timeout(deadline, receiver)` -/
  | wait (id : Nat)
  /-- `abandon`: `pending.lock()` -/
  | abandon (id : Nat)
  /-- `abandon`: `ignored.lock()` -/
  | ignore (id : Nat)
  /-- `send_cancel`: `ignored.lock()` -/
  | cancel (id : Nat)
  /-- `send_cancel`: `outbound.try_send(..)` -/
  | cancelSend (id : Nat)
  /-- `send_cancel`: `ignored.lock()` after a send that failed -/
  | cancelUndo (id : Nat)
  /-- `fail`: `pending.lock()` -/
  | drain (resume : Resume)

inductive Thread where
  | running (request : Request) (pc : Pc)
  | returned (request : Request) (outcome : Outcome)
  | dropped (request : Request)

/-- The await point at which the read loop is suspended. -/
inductive Reader where
  | decoding
  /-- `ignored.lock()` -/
  | ignored (e : Envelope)
  /-- `pending.lock()` -/
  | pending (e : Envelope)
  /-- `fail`: `pending.lock()` -/
  | draining
  | stopped
  deriving DecidableEq

inductive Obs where
  | issued (id : Nat)
  | response (id : Nat)
  | unknown (id : Nat)
  deriving DecidableEq, Repr

structure Sys where
  host : Host
  pending : Std.ExtTreeSet Nat
  ignored : Std.ExtTreeSet Nat
  /-- what the receiver of each pending request has been sent -/
  slots : Nat → Option (Except Failure Envelope)
  nextId : Nat
  hello : Bool
  failure : Option Failure
  pid : Nat
  killed : Bool
  calls : Std.ExtTreeMap CallId Thread
  reader : Reader
  /-- other tasks in `fail` that wait for `pending.lock()` -/
  failing : Nat
  history : List Obs

/-- `Session::spawn`. -/
def Sys.spawn (host : Host) : Sys where
  host
  pending := ∅
  ignored := ∅
  slots := fun _ => none
  nextId := 0
  hello := false
  failure := none
  pid := 0
  killed := false
  calls := ∅
  reader := .decoding
  failing := 0
  history := []

/-! ## The functions of the source -/

/-- `fail` up to its await point: whether this is the first failure. -/
def Sys.fail (s : Sys) (f : Failure) : Sys × Bool :=
  if s.failure.isSome then (s, false) else ({ s with failure := some f }, true)

/-- `fail` from its await point on. -/
def Sys.drain (s : Sys) (f : Failure) : Sys :=
  { s with
    slots := fun id => if id ∈ s.pending then some (.error f) else s.slots id
    pending := ∅
    killed := s.killed || s.pid != 0 }

def Sys.goto (s : Sys) (k : CallId) (request : Request) (pc : Pc) : Sys :=
  { s with calls := s.calls.insert k (.running request pc) }

def Sys.ret (s : Sys) (k : CallId) (request : Request) (outcome : Outcome) : Sys :=
  { s with calls := s.calls.insert k (.returned request outcome) }

/-- A call after `abandon`: a plugin is told to cancel the request, with a request of its own. -/
def Sys.abandoned (s : Sys) (k : CallId) (request : Request) : Sys :=
  match s.host with
  | .plugin => { s with nextId := s.nextId + 1 }.goto k request (.cancel (s.nextId + 1))
  | .adapter => s.ret k request (.error .timeout)

def Sys.resume (s : Sys) (k : CallId) (request : Request) : Resume → Sys
  | .abandoned => s.abandoned k request
  | .ret outcome => s.ret k request outcome

/-- `fail` in a call. -/
def Sys.failCall (s : Sys) (k : CallId) (request : Request) (f : Failure) (r : Resume) : Sys :=
  match s.fail f with
  | (s, true) => s.goto k request (.drain r)
  | (s, false) => s.resume k request r

/-- `call` with the response in hand. -/
def Sys.respond (s : Sys) (k : CallId) (request : Request) (e : Envelope) : Sys :=
  if e.method ≠ request.method then
    s.failCall k request (.responseMethod e.method request.method)
      (.ret (.error (.responseMethod e.method request.method)))
  else match e.error, e.body with
    | some (code, message), _ => s.ret k request (.error (.protocol code message))
    | none, none => s.ret k request (.error (.invalid "response body is required"))
    | none, some body => s.ret k request ((request.decode body).mapError .invalid)

def Sys.observe (s : Sys) (o : Obs) : Sys := { s with history := s.history ++ [o] }

/-- The code of a call from an await point to the next one. `refuse` is a frame that the outbound
    queue does not take, and the deadline at `wait`. -/
def Sys.callStep (s : Sys) (k : CallId) (request : Request) (refuse : Bool) : Pc → Option Sys
  | .insert id => some
    (if maxPendingCalls ≤ s.pending.size then s.ret k request (.error .pendingLimit)
    else
      let s := { s with pending := s.pending.insert id }
      -- the adapter host encodes the request only now
      match s.host, request.encoded with
      | .adapter, .error message => s.ret k request (.error (.invalid message))
      | _, _ => s.goto k request (.send id))
  | .send id => some
    (if refuse then s.goto k request (.unsend id)
    else (s.observe (.issued id)).goto k request (.wait id))
  | .unsend id => some
    ({ s with pending := s.pending.erase id }.ret k request (.error (.closed s.failure)))
  | .wait id =>
    match s.slots id with
    | some (.ok e) => if refuse then none else some (s.respond k request e)
    | some (.error f) => if refuse then none else some (s.ret k request (.error (.closed (some f))))
    | none => if refuse then some (s.goto k request (.abandon id)) else none
  | .abandon id => some
    (if id ∈ s.pending then { s with pending := s.pending.erase id }.goto k request (.ignore id)
    else s.abandoned k request)
  | .ignore id => some
    (if maxIgnoredResponses ≤ s.ignored.size then s.failCall k request .abandonedLimit .abandoned
    else { s with ignored := s.ignored.insert id }.abandoned k request)
  | .cancel id => some
    (if maxIgnoredResponses ≤ s.ignored.size then
      s.failCall k request .ignoredLimit (.ret (.error .timeout))
    else { s with ignored := s.ignored.insert id }.goto k request (.cancelSend id))
  | .cancelSend id => some
    (if refuse then s.goto k request (.cancelUndo id)
    else (s.observe (.issued id)).ret k request (.error .timeout))
  | .cancelUndo id => some
    ({ s with ignored := s.ignored.erase id }.ret k request (.error .timeout))
  | .drain r => s.failure.map fun f => (s.drain f).resume k request r

/-- The code of `call` before its first await point: the plugin host encodes the request before it
    takes an identifier. -/
def Sys.start (s : Sys) (k : CallId) (request : Request) : Sys :=
  match s.host, request.encoded with
  | .plugin, .error message => s.ret k request (.error (.invalid message))
  | _, _ => { s with nextId := s.nextId + 1 }.goto k request (.insert (s.nextId + 1))

/-- `handle_notification` of the plugin host, the notification branch of the adapter host's read
    loop: whether hello has been received after it. -/
def handleNotification (host : Host) (hello : Bool) (n : Notification) : Except Failure Bool :=
  match host, n.note with
  | .adapter, .hello =>
    if hello then .error .unsupportedNotification
    else match n.body with
      | none => .error (.notificationBody .hello)
      | some decoded => (decoded.mapError .other).map fun _ => true
  | .adapter, _ => .error .unsupportedNotification
  | .plugin, note =>
    match n.body, note with
    | none, _ => .error (.notificationBody note)
    | some decoded, .hello =>
      if hello then .error .duplicateHello else (decoded.mapError .other).map fun _ => true
    | some _, .other method => .error (.unsupportedMethod method)
    | some decoded, _ =>
      if hello then
        match decoded with
        | .error message => .error (.other message)
        | .ok () => if n.room then .ok true else .error (.queueFull note)
      else .error .beforeHello

/-- `fail` in the read loop, which then returns. -/
def Sys.failReader (s : Sys) (f : Failure) : Sys :=
  match s.fail f with
  | (s, true) => { s with reader := .draining }
  | (s, false) => { s with reader := .stopped }

/-- The read loop from a frame to the next await point. -/
def Sys.receive (s : Sys) : Frame → Option Sys
  | .notification n => some (match handleNotification s.host s.hello n with
    | .ok hello => { s with hello }
    | .error f => s.failReader f)
  | .response e =>
    -- the plugin host takes every frame with an identifier for a response
    let s := s.observe (.response e.id)
    some (match s.host, s.hello with
      | .adapter, false => s.failReader .unsupportedTraffic
      | _, _ => { s with reader := .ignored e })
  | .request _ command => match s.host with
    | .plugin => none
    | .adapter => some (if s.hello && command then s else s.failReader .unsupportedTraffic)
  | .closed => some (s.failReader .closedTransport)
  | .invalid message => some (s.failReader (.other message))

/-- The read loop at a mutex. -/
def Sys.readStep (s : Sys) : Option Sys :=
  match s.reader with
  | .ignored e => some
    (if e.id ∈ s.ignored then { s with ignored := s.ignored.erase e.id, reader := .decoding }
    else { s with reader := .pending e })
  | .pending e => some
    (if e.id ∈ s.pending then
      { s with
        pending := s.pending.erase e.id
        slots := Function.update s.slots e.id (some (.ok e))
        reader := .decoding }
    else (s.observe (.unknown e.id)).failReader (.unknownRequest e.id))
  | .draining => s.failure.map fun f => { s.drain f with reader := .stopped }
  | .decoding | .stopped => none

/-! ## The machine -/

inductive Action where
  | start (k : CallId) (request : Request)
  | advance (k : CallId)
  /-- the outbound queue does not take the frame, or the deadline passes -/
  | refuse (k : CallId)
  /-- the caller drops the call -/
  | drop (k : CallId)
  | receive (frame : Frame)
  | read
  /-- another task fails the session -/
  | fail (message : String)
  | drain
  | setPid (pid : Nat)

def step (s : Sys) : Action → Option Sys
  | .start k request => if k ∈ s.calls then none else some (s.start k request)
  | .advance k => match s.calls[k]? with
    | some (.running request pc) => s.callStep k request false pc
    | _ => none
  | .refuse k => match s.calls[k]? with
    | some (.running request pc) => match pc with
      | .send _ | .wait _ | .cancelSend _ => s.callStep k request true pc
      | _ => none
    | _ => none
  | .drop k => match s.calls[k]? with
    | some (.running request _) => some { s with calls := s.calls.insert k (.dropped request) }
    | _ => none
  | .receive frame => match s.reader with
    | .decoding => s.receive frame
    | _ => none
  | .read => s.readStep
  | .fail message => some (match s.fail (.other message) with
    | (s, true) => { s with failing := s.failing + 1 }
    | (s, false) => s)
  | .drain => match s.failure, s.failing with
    | some f, n + 1 => some { s.drain f with failing := n }
    | _, _ => none
  | .setPid pid => some { s with pid }

abbrev run : Sys → List Action → Option Sys := Machine.run step

end Oikade.Session
