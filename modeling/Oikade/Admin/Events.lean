/-
  The event stream of the admin API: `get_events` (`oikade-admin/src/server.rs`) writes one record a
  line, and `Client::watch` (`client.rs`) reads the lines out of the chunks that the HTTP client
  gives it.

  The client looks at the size of its buffer when a chunk has been appended, before it takes the
  lines out of it. So the limit is on what was left of the last chunk together with all of the next
  one, and not on a record: `Fits`. Where that holds, the outcome is that of the bytes in one piece
  (`watchChunks_eq`), and every receiver gets what was sent (`delivers_iff`). A record that is as long
  as the limit never gets through (`not_delivers_of_length`), and shorter ones may not when a chunk has
  the end of one and the beginning of the next (`not_delivers_notes`).

  JSON texts, RFC 3339 times and the names of HTTP statuses come from libraries (`Texts`).
-/
import Oikade.Core.Runtime
import Oikade.Lib.Lines
import Oikade.Lib.Utf8
import Mathlib.Data.List.Forall2
import Mathlib.Data.List.SplitLengths

namespace Oikade.Admin.Events

open Oikade.Core (RuntimeError)
open Lines (cut pending cut_of_findIdx? cut_of_not_mem cut_append cut_lines pending_append
  pending_of_cut_nil not_mem_pending length_pending_le length_lt_of_mem_cut)

abbrev Bytes := List UInt8

def newline : UInt8 := 10

def maxResponseBody : Nat := 2 ^ 20

/-! ## Records -/

structure Value where
  kind : String
  bool : Option Bool
  integer : Option Int64
  number : Option Float64
  string : Option String
  deriving DecidableEq

structure Event where
  deviceId : String
  capabilityId : String
  value : Value
  revision : Nat
  occurredAt : String
  deriving DecidableEq

structure ErrorPayload where
  code : String
  message : String
  deriving DecidableEq

structure StreamRecord where
  event : Option Event
  error : Option ErrorPayload
  deriving DecidableEq

/-- The texts that libraries write and read. -/
structure Texts where
  /-- `serde_json::to_vec` -/
  toVec : StreamRecord → Except String Bytes
  /-- `serde_json::from_slice` -/
  fromSlice : Bytes → Except String StreamRecord
  payloadFromSlice : Bytes → Except String ErrorPayload
  /-- `OffsetDateTime::format` -/
  rfc3339 : Nat → Except String String
  /-- an HTTP status as it is displayed -/
  status : Nat → String
  /-- what is wrong with a value or a definition, as it is displayed -/
  reason : Core.InvalidReason → String

variable (F : Texts)

def valueFromCore (value : Core.Value) : Value :=
  let converted : Value := ⟨value.kind.asStr, none, none, none, none⟩
  match value with
  | .bool value => { converted with bool := some value }
  | .integer value => { converted with integer := some value }
  | .number value => { converted with number := some value }
  | .string value => { converted with string := some value }

def eventFromCore (event : Core.Event) : Event where
  deviceId := event.deviceId.asStr
  capabilityId := event.capabilityId.asStr
  value := valueFromCore event.value
  revision := event.revision
  occurredAt :=
    match F.rfc3339 event.occurredAt with
    | .ok text => text
    | .error _ => "1970-01-01T00:00:00Z"

/-- A runtime error as it is displayed. -/
def runtimeErrorText : RuntimeError → String
  | .stopped => "core runtime is stopped"
  | .alreadyStarted => "core runtime is already started"
  | .alreadyExists device => "device already exists: " ++ device
  | .notFound what => "device or capability not found: " ++ what
  | .notReadable what => "capability is not readable: " ++ what
  | .notWritable what => "capability is not writable: " ++ what
  | .invalidValue reason => "invalid capability value: " ++ F.reason reason
  | .slowConsumer => "event subscriber is too slow"
  | .invalidSubscriptionBuffer =>
    "subscription buffer must be between 1 and " ++ toString Core.maxSubscriptionBuffer
  | .missingCommandHandler what => "writable device has no command handler: " ++ what
  | .restore device (.store message) => "restore device " ++ device ++ ": " ++ message
  | .restore device (.value reason) => "restore device " ++ device ++ ": " ++ F.reason reason
  | .persist device capability message =>
    "persist state for " ++ device ++ "/" ++ capability ++ ": " ++ message
  | .command device capability message =>
    "handle command for " ++ device ++ "/" ++ capability ++ ": " ++ message

/-! ## The server -/

def eventRecord (event : Core.Event) : StreamRecord := ⟨some (eventFromCore F event), none⟩

def errorRecord (error : RuntimeError) : StreamRecord :=
  ⟨none, some ⟨"stream_closed", runtimeErrorText F error⟩⟩

/-- The loop of `get_events` over what `recv` returns. A record that cannot be written ends it. -/
def writeEvents : List Core.Event → List Bytes
  | [] => []
  | event :: events =>
    match F.toVec (eventRecord F event) with
    | .ok encoded => (encoded ++ [newline]) :: writeEvents events
    | .error _ => []

/-- The end of the stream, from the error of the subscription. -/
def writeError : Option RuntimeError → List Bytes
  | none => []
  | some error =>
    if error = .stopped then []
    else match F.toVec (errorRecord F error) with
      | .ok encoded => [encoded ++ [newline]]
      | .error _ => []

/-- What `get_events` yields for the events of a subscription and its error. -/
def getEvents (events : List Core.Event) (error : Option RuntimeError) : List Bytes :=
  writeEvents F events ++ writeError F error

/-! ## The client -/

inductive ClientError where
  | request (error : String)
  | responseTooLarge
  | decode (error : String)
  | api (status : Nat) (code message : String)
  | streamClosed
  | invalidStreamRecord
  | receiver (message : String)
  deriving DecidableEq

/-- A response of the HTTP client: its body is a stream of chunks and errors. -/
structure Response where
  status : Nat
  contentLength : Option Nat
  body : List (Except String Bytes)

def isSuccess (status : Nat) : Bool := 200 ≤ status && status < 300

/-- The loop of `read_bounded`. -/
def readBody (body : Bytes) : List (Except String Bytes) → Except ClientError Bytes
  | [] => .ok body
  | .error e :: _ => .error (.request e)
  | .ok chunk :: chunks =>
    if maxResponseBody < body.length + chunk.length then .error .responseTooLarge
    else readBody (body ++ chunk) chunks

def readBounded (response : Response) : Except ClientError Bytes :=
  if response.contentLength.any (maxResponseBody < ·) then .error .responseTooLarge
  else readBody [] response.body

def decodeApiError (status : Nat) (body : Bytes) : ClientError :=
  match F.payloadFromSlice body with
  | .ok payload => .api status payload.code payload.message
  | .error _ => .api status "invalid_error_response"
      ("admin API returned HTTP " ++ F.status status ++ " with an invalid error body")

/-- The callback of `watch`: what it answers may depend on what it was given before. -/
abbrev Receiver := List Event → Event → Except String Unit

variable (status : Nat) (receive : Receiver)

/-- `receive_record`; `seen` is what the receiver was given. -/
def receiveRecord (seen : List Event) (record : StreamRecord) :
    List Event × Except ClientError Unit :=
  match record.error with
  | some error => (seen, .error (.api status error.code error.message))
  | none =>
    match record.event with
    | none => (seen, .error .invalidStreamRecord)
    | some event => (seen ++ [event], (receive seen event).mapError .receiver)

/-- A line without its newline. -/
def receiveLine (seen : List Event) (line : Bytes) : List Event × Except ClientError Unit :=
  match F.fromSlice line with
  | .error e => (seen, .error (.decode e))
  | .ok record => receiveRecord status receive seen record

/-- The inner loop: takes the lines out of the buffer. -/
def drain (seen : List Event) (buffer : Bytes) : List Event × Except ClientError Bytes :=
  match _hindex : buffer.findIdx? (· = newline) with
  | none => (seen, .ok buffer)
  | some index =>
    let line := buffer.take (index + 1)
    if line.length = 1 then drain seen (buffer.drop (index + 1))
    else match receiveLine F status receive seen (line.take (line.length - 1)) with
      | (seen, .error e) => (seen, .error e)
      | (seen, .ok ()) => drain seen (buffer.drop (index + 1))
termination_by buffer.length
decreasing_by
  all_goals
    have hlt := (List.findIdx?_eq_some_iff_getElem.mp _hindex).1
    rw [List.length_drop]
    omega

/-- The loop over the chunks, and what follows it. -/
def watchChunks (seen : List Event) (buffer : Bytes) :
    List (Except String Bytes) → List Event × Except ClientError Unit
  | [] =>
    if buffer.isEmpty then (seen, .error .streamClosed)
    else match receiveLine F status receive seen buffer with
      | (seen, .error e) => (seen, .error e)
      | (seen, .ok ()) => (seen, .error .streamClosed)
  | .error e :: _ => (seen, .error (.request e))
  | .ok chunk :: chunks =>
    if maxResponseBody < (buffer ++ chunk).length then (seen, .error .responseTooLarge)
    else match drain F status receive seen (buffer ++ chunk) with
      | (seen, .error e) => (seen, .error e)
      | (seen, .ok buffer) => watchChunks seen buffer chunks

/-- `Client::watch`, from the result of the request: what the receiver was given, and the result. -/
def watch (sent : Except String Response) : List Event × Except ClientError Unit :=
  match sent with
  | .error e => ([], .error (.request e))
  | .ok response =>
    if isSuccess response.status then
      watchChunks F response.status receive [] [] response.body
    else match readBounded response with
      | .error e => ([], .error e)
      | .ok body => ([], .error (decodeApiError F response.status body))

/-! ## Lines -/

/-- The lines of a buffer, one after the other; an empty one is passed over. -/
def receiveLines (seen : List Event) : List Bytes → List Event × Except ClientError Unit
  | [] => (seen, .ok ())
  | line :: lines =>
    if line.isEmpty then receiveLines seen lines
    else match receiveLine F status receive seen line with
      | (seen, .error e) => (seen, .error e)
      | (seen, .ok ()) => receiveLines seen lines

/-- The bytes in one piece: their lines, then what has no newline, then the end. -/
def watchBytes (seen : List Event) (bytes : Bytes) : List Event × Except ClientError Unit :=
  match receiveLines F status receive seen (cut newline bytes).1 with
  | (seen, .error e) => (seen, .error e)
  | (seen, .ok ()) => watchChunks F status receive seen (pending newline bytes) []

variable {F status receive}

/-- The line up to an index, without the byte there. -/
theorem take_line {buffer : Bytes} {index : Nat} (hlt : index < buffer.length) :
    (buffer.take (index + 1)).take ((buffer.take (index + 1)).length - 1) = buffer.take index ∧
      ((buffer.take (index + 1)).length ≠ 1 → (buffer.take index).isEmpty = false) := by
  have hlength : (buffer.take (index + 1)).length = index + 1 := by
    rw [List.length_take]
    omega
  refine ⟨?_, fun hone => ?_⟩
  · rw [hlength, List.take_take, Nat.add_sub_cancel, Nat.min_eq_left (Nat.le_succ index)]
  · have hpos : (buffer.take index).length ≠ 0 := by
      rw [List.length_take]
      omega
    simpa [List.isEmpty_iff] using hpos

theorem drain_eq (seen : List Event) (buffer : Bytes) :
    drain F status receive seen buffer =
      match receiveLines F status receive seen (cut newline buffer).1 with
      | (seen, .error e) => (seen, .error e)
      | (seen, .ok ()) => (seen, .ok (pending newline buffer)) := by
  fun_induction drain F status receive seen buffer with
  | case1 seen buffer hnone =>
    have hmem : newline ∉ buffer := fun h => by
      simpa using List.findIdx?_eq_none_iff.mp hnone newline h
    simp [pending, cut_of_not_mem hmem, receiveLines]
  | case2 seen buffer index hindex line hone ih =>
    have hlt := (List.findIdx?_eq_some_iff_getElem.mp hindex).1
    have hzero : index = 0 := by
      simp only [line, List.length_take] at hone
      omega
    subst hzero
    rw [ih]
    simp only [pending, cut_of_findIdx? hindex, List.take_zero, receiveLines, List.isEmpty_nil,
      if_true]
  | case3 seen buffer index hindex line hone seen' e hreceive =>
    obtain ⟨hline, hne⟩ := take_line (List.findIdx?_eq_some_iff_getElem.mp hindex).1
    rw [hline] at hreceive
    simp [cut_of_findIdx? hindex, receiveLines, hne hone, hreceive]
  | case4 seen buffer index hindex line hone seen' hreceive ih =>
    obtain ⟨hline, hne⟩ := take_line (List.findIdx?_eq_some_iff_getElem.mp hindex).1
    rw [hline] at hreceive
    rw [ih]
    simp [pending, cut_of_findIdx? hindex, receiveLines, hne hone, hreceive]

theorem receiveLines_append (seen : List Event) (a b : List Bytes) :
    receiveLines F status receive seen (a ++ b) =
      match receiveLines F status receive seen a with
      | (seen, .error e) => (seen, .error e)
      | (seen, .ok ()) => receiveLines F status receive seen b := by
  induction a generalizing seen with
  | nil => rfl
  | cons line a ih =>
    rw [List.cons_append, receiveLines, receiveLines]
    by_cases hline : line.isEmpty
    · rw [if_pos hline, if_pos hline, ih]
    · rw [if_neg hline, if_neg hline]
      cases receiveLine F status receive seen line with
      | mk seen' result =>
        cases result with
        | error e => rfl
        | ok u => exact ih seen'

/-- What one piece of the stream does, and what is left for the rest. -/
theorem watchBytes_append (seen : List Event) (a b : Bytes) :
    watchBytes F status receive seen (a ++ b) =
      match receiveLines F status receive seen (cut newline a).1 with
      | (seen, .error e) => (seen, .error e)
      | (seen, .ok ()) => watchBytes F status receive seen (pending newline a ++ b) := by
  unfold watchBytes
  rw [cut_append, receiveLines_append, pending_append]
  cases receiveLines F status receive seen (cut newline a).1 with
  | mk seen' result =>
    cases result with
    | error e => rfl
    | ok u => rfl

/-! ## The limit -/

/-- What was left before each chunk, together with the chunk, is within the limit. -/
def Fits (chunks : List Bytes) : Prop :=
  ∀ before chunk after, chunks = before ++ chunk :: after →
    (pending newline before.flatten).length + chunk.length ≤ maxResponseBody

/-- The same from a buffer on. -/
def FitsFrom (buffer : Bytes) : List Bytes → Prop
  | [] => True
  | chunk :: chunks =>
    (buffer ++ chunk).length ≤ maxResponseBody ∧
      FitsFrom (pending newline (buffer ++ chunk)) chunks

theorem fitsFrom_iff {buffer : Bytes} {chunks : List Bytes} (hbuffer : newline ∉ buffer) :
    FitsFrom buffer chunks ↔ ∀ before chunk after, chunks = before ++ chunk :: after →
      (pending newline (buffer ++ before.flatten)).length + chunk.length ≤ maxResponseBody := by
  induction chunks generalizing buffer with
  | nil => simp [FitsFrom]
  | cons chunk chunks ih =>
    have hpending : pending newline buffer = buffer := by rw [pending, cut_of_not_mem hbuffer]
    rw [FitsFrom, ih (not_mem_pending newline _)]
    refine ⟨fun hfits before c after heq => ?_, fun h => ⟨?_, fun before c after heq => ?_⟩⟩
    · cases before with
      | nil =>
        rw [List.nil_append, List.cons.injEq] at heq
        rw [List.flatten_nil, List.append_nil, hpending, ← heq.1, ← List.length_append]
        exact hfits.1
      | cons b before =>
        rw [List.cons_append, List.cons.injEq] at heq
        have := hfits.2 before c after heq.2
        rwa [← pending_append, heq.1, List.append_assoc, ← List.flatten_cons] at this
    · have := h [] chunk chunks rfl
      rwa [List.flatten_nil, List.append_nil, hpending, ← List.length_append] at this
    · have := h (chunk :: before) c after (by rw [heq, List.cons_append])
      rwa [List.flatten_cons, ← List.append_assoc, pending_append] at this

theorem fits_iff {chunks : List Bytes} : Fits chunks ↔ FitsFrom [] chunks :=
  (fitsFrom_iff (List.not_mem_nil)).symm

/-- A stream that is within the limit as a whole. -/
theorem fits_of_length {chunks : List Bytes} (h : chunks.flatten.length ≤ maxResponseBody) :
    Fits chunks := by
  rintro before chunk after rfl
  have hle := length_pending_le newline before.flatten
  rw [List.flatten_append, List.flatten_cons, List.length_append, List.length_append] at h
  omega

/-- Within the limit, the chunks do not matter. -/
theorem watchChunks_eq {buffer : Bytes} {chunks : List Bytes} (hbuffer : newline ∉ buffer)
    (hfits : FitsFrom buffer chunks) (seen : List Event) :
    watchChunks F status receive seen buffer (chunks.map .ok) =
      watchBytes F status receive seen (buffer ++ chunks.flatten) := by
  induction chunks generalizing buffer seen with
  | nil =>
    simp [watchBytes, pending, cut_of_not_mem hbuffer, receiveLines]
  | cons chunk chunks ih =>
    rw [List.map_cons, watchChunks, if_neg (Nat.not_lt.mpr hfits.1), drain_eq, List.flatten_cons,
      ← List.append_assoc, watchBytes_append]
    cases receiveLines F status receive seen (cut newline (buffer ++ chunk)).1 with
    | mk seen' result =>
      cases result with
      | error e => rfl
      | ok u => exact ih (not_mem_pending newline _) hfits.2 seen'

/-- Within the limit, every line is below it: at its newline the buffer holds all of the line. -/
theorem length_lt_of_fitsFrom {buffer : Bytes} {chunks : List Bytes} (hbuffer : newline ∉ buffer)
    (hfits : FitsFrom buffer chunks) :
    ∀ line ∈ (cut newline (buffer ++ chunks.flatten)).1, line.length < maxResponseBody := by
  induction chunks generalizing buffer with
  | nil => simp [cut_of_not_mem hbuffer]
  | cons chunk chunks ih =>
    rw [List.flatten_cons, ← List.append_assoc, cut_append]
    intro line hline
    obtain hline | hline := List.mem_append.mp hline
    · exact Nat.lt_of_lt_of_le (length_lt_of_mem_cut hline) hfits.1
    · exact ih (not_mem_pending newline _) hfits.2 line hline

/-- A receiver that takes everything. -/
def accept : Receiver := fun _ _ => .ok ()

theorem receiveLines_accept {lines : List Bytes}
    (hlines : ∀ line ∈ lines, ∃ event, F.fromSlice line = .ok ⟨some event, none⟩)
    (seen : List Event) : ∃ seen', receiveLines F status accept seen lines = (seen', .ok ()) := by
  induction lines generalizing seen with
  | nil => exact ⟨seen, rfl⟩
  | cons line lines ih =>
    rw [List.forall_mem_cons] at hlines
    obtain ⟨⟨event, hevent⟩, hrest⟩ := hlines
    rw [receiveLines]
    split
    · exact ih hrest seen
    · simp only [receiveLine, hevent, receiveRecord, accept, Except.mapError]
      exact ih hrest (seen ++ [event])

theorem fitsFrom_nil {chunks : List Bytes} (h : chunks.flatten = []) : FitsFrom [] chunks := by
  induction chunks with
  | nil => trivial
  | cons chunk chunks ih =>
    rw [List.flatten_cons, List.append_eq_nil_iff] at h
    rw [h.1]
    exact ⟨Nat.zero_le _, ih h.2⟩

/-- Beyond the limit the watcher gives up. Only the last line of the stream may be no event: when it
    has been read, nothing is left that could be too large. -/
theorem watchChunks_tooLarge {buffer : Bytes} {chunks lines : List Bytes}
    (hlines : cut newline (buffer ++ chunks.flatten) = (lines, []))
    (hevents : ∀ line ∈ lines.dropLast, ∃ event, F.fromSlice line = .ok ⟨some event, none⟩)
    (hfits : ¬ FitsFrom buffer chunks) (seen : List Event) :
    (watchChunks F status accept seen buffer (chunks.map .ok)).2 = .error .responseTooLarge := by
  induction chunks generalizing buffer lines seen with
  | nil => exact absurd trivial hfits
  | cons chunk chunks ih =>
    rw [List.map_cons, watchChunks]
    by_cases hlarge : maxResponseBody < (buffer ++ chunk).length
    · rw [if_pos hlarge]
    · rw [if_neg hlarge, drain_eq]
      rw [FitsFrom, not_and] at hfits
      have hrest := hfits (Nat.not_lt.mp hlarge)
      rw [List.flatten_cons, ← List.append_assoc, cut_append, Prod.mk.injEq] at hlines
      obtain ⟨hsplit, hend⟩ := hlines
      generalize hlater : (cut newline (pending newline (buffer ++ chunk) ++ chunks.flatten)).1 =
        later at hsplit
      have hne : later ≠ [] := by
        rintro rfl
        have hnil := pending_of_cut_nil hlater
        rw [pending, hend, eq_comm, List.append_eq_nil_iff] at hnil
        rw [hnil.1] at hrest
        exact hrest (fitsFrom_nil hnil.2)
      rw [← hsplit, List.dropLast_append_of_ne_nil hne] at hevents
      obtain ⟨seen', hseen⟩ := @receiveLines_accept F status _
        (fun line h => hevents line (List.mem_append_left _ h)) seen
      rw [hseen]
      exact ih (Prod.ext hlater hend) (fun line h => hevents line (List.mem_append_right _ h))
        hrest seen'

/-! ## What was sent -/

/-- What is relied on of `serde_json` at a record: its text has no newline in it and is read back. -/
structure Texts.WrittenAs (F : Texts) (record : StreamRecord) (text : Bytes) : Prop where
  toVec : F.toVec record = .ok text
  fromSlice : F.fromSlice text = .ok record
  nonempty : text ≠ []
  oneLine : newline ∉ text

/-- The last record, which a subscription that was stopped does not have. -/
def errorRecords (F : Texts) : Option RuntimeError → List StreamRecord
  | none => []
  | some error => if error = .stopped then [] else [errorRecord F error]

def records (F : Texts) (events : List Core.Event) (error : Option RuntimeError) :
    List StreamRecord :=
  events.map (eventRecord F) ++ errorRecords F error

/-- What the stream ends with for the watcher. -/
def ending (F : Texts) : Option RuntimeError → ClientError
  | none => .streamClosed
  | some error =>
    if error = .stopped then .streamClosed
    else .api 200 "stream_closed" (runtimeErrorText F error)

/-- Events in order, each once, until the receiver refuses one; then the end. -/
def delivered (receive : Receiver) (last : ClientError) (seen : List Event) :
    List Event → List Event × Except ClientError Unit
  | [] => (seen, .error last)
  | event :: events =>
    match receive seen event with
    | .ok () => delivered receive last (seen ++ [event]) events
    | .error message => (seen ++ [event], .error (.receiver message))

/-- A response of `get_events` whose body arrives in these chunks. -/
def eventsResponse (chunks : List Bytes) : Response := ⟨200, none, chunks.map .ok⟩

/-- Whatever the receiver does, it is given the events that were sent. -/
def Delivers (F : Texts) (events : List Core.Event) (error : Option RuntimeError)
    (chunks : List Bytes) : Prop :=
  ∀ receive, watch F receive (.ok (eventsResponse chunks)) =
    delivered receive (ending F error) [] (events.map (eventFromCore F))

theorem delivered_accept (last : ClientError) (seen events : List Event) :
    delivered accept last seen events = (seen ++ events, .error last) := by
  induction events generalizing seen with
  | nil => simp [delivered]
  | cons event events ih =>
    simp only [delivered, accept]
    rw [ih, List.append_assoc, List.singleton_append]

/-- The stream is made of the texts of its records. -/
theorem getEvents_eq {events : List Core.Event} {error : Option RuntimeError} {texts : List Bytes}
    (hwritten : List.Forall₂ F.WrittenAs (records F events error) texts) :
    (getEvents F events error).flatten = texts.flatMap (· ++ [newline]) := by
  unfold getEvents records at *
  induction events generalizing texts with
  | nil =>
    cases error with
    | none =>
      cases hwritten
      rfl
    | some error =>
      simp only [List.map_nil, List.nil_append, errorRecords] at hwritten
      simp only [writeEvents, writeError, List.nil_append]
      split at hwritten
      · cases hwritten
        rw [if_pos ‹_›]
        rfl
      · rw [if_neg ‹_›]
        cases hwritten with
        | cons htext hnil =>
          cases hnil
          simp [htext.toVec]
  | cons event events ih =>
    cases hwritten with
    | cons htext hrest =>
      simp only [writeEvents, htext.toVec, List.cons_append, List.flatten_cons, ih hrest,
        List.flatMap_cons]

theorem receiveLines_written {events : List Core.Event} {error : Option RuntimeError}
    {texts : List Bytes}
    (hwritten : List.Forall₂ F.WrittenAs (records F events error) texts) (seen : List Event) :
    (match receiveLines F 200 receive seen texts with
      | (seen, .error e) => (seen, .error e)
      | (seen, .ok ()) => (seen, .error .streamClosed)) =
      delivered receive (ending F error) seen (events.map (eventFromCore F)) := by
  unfold records at hwritten
  induction events generalizing texts seen with
  | nil =>
    cases error with
    | none =>
      cases hwritten
      rfl
    | some error =>
      simp only [List.map_nil, List.nil_append, errorRecords] at hwritten
      simp only [List.map_nil, delivered, ending]
      split at hwritten
      · cases hwritten
        rw [if_pos ‹_›]
        rfl
      · rw [if_neg ‹_›]
        cases hwritten with
        | cons htext hnil =>
          cases hnil
          simp [receiveLines, htext.nonempty, receiveLine, htext.fromSlice, receiveRecord,
            errorRecord]
  | cons event events ih =>
    cases hwritten with
    | cons htext hrest =>
      simp only [receiveLines, List.isEmpty_iff, htext.nonempty, if_false, receiveLine,
        htext.fromSlice, eventRecord, receiveRecord, List.map_cons, delivered]
      cases receive seen (eventFromCore F event) with
      | error message => rfl
      | ok u => exact ih hrest (seen ++ [eventFromCore F event])

theorem exists_texts {rs : List StreamRecord} (h : ∀ record ∈ rs, ∃ text, F.WrittenAs record text) :
    ∃ texts, List.Forall₂ F.WrittenAs rs texts ∧ ∀ text ∈ texts, newline ∉ text := by
  induction rs with
  | nil => exact ⟨[], .nil, by simp⟩
  | cons record rs ih =>
    rw [List.forall_mem_cons] at h
    obtain ⟨⟨text, htext⟩, hrest⟩ := h
    obtain ⟨texts, htexts, honeLine⟩ := ih hrest
    exact ⟨text :: texts, .cons htext htexts, List.forall_mem_cons.mpr ⟨htext.oneLine, honeLine⟩⟩

theorem mem_texts {rs : List StreamRecord} {texts : List Bytes}
    (htexts : List.Forall₂ F.WrittenAs rs texts) {record : StreamRecord} {text : Bytes}
    (hrecord : record ∈ rs) (htext : F.WrittenAs record text) : text ∈ texts := by
  induction htexts with
  | nil => cases hrecord
  | @cons _ text' _ _ h _ ih =>
    obtain rfl | hrecord := List.mem_cons.mp hrecord
    · obtain rfl : text = text' := Except.ok.inj (htext.toVec.symm.trans h.toVec)
      exact List.mem_cons_self
    · exact List.mem_cons_of_mem _ (ih hrecord)

/-- Every line but the last is an event. -/
theorem event_of_dropLast {events : List Core.Event} {error : Option RuntimeError}
    {texts : List Bytes} (hwritten : List.Forall₂ F.WrittenAs (records F events error) texts) :
    ∀ line ∈ texts.dropLast, ∃ event, F.fromSlice line = .ok ⟨some event, none⟩ := by
  unfold records at hwritten
  induction events generalizing texts with
  | nil =>
    have hshort : texts.length ≤ 1 := by
      rw [← hwritten.length_eq]
      cases error with
      | none => simp [errorRecords]
      | some error =>
        simp only [errorRecords]
        split <;> simp
    have hnil : texts.dropLast = [] := by
      rw [← List.length_eq_zero_iff, List.length_dropLast]
      omega
    simp [hnil]
  | cons event events ih =>
    cases hwritten with
    | @cons _ text _ texts htext hrest =>
      cases texts with
      | nil => simp
      | cons text' texts =>
        rw [List.dropLast_cons_cons, List.forall_mem_cons]
        exact ⟨⟨_, htext.fromSlice⟩, ih hrest⟩

theorem watch_eventsResponse (chunks : List Bytes) :
    watch F receive (.ok (eventsResponse chunks)) =
      watchChunks F 200 receive [] [] (chunks.map .ok) := rfl

theorem ending_ne (error : Option RuntimeError) : ending F error ≠ .responseTooLarge := by
  cases error with
  | none => simp [ending]
  | some error =>
    simp only [ending]
    split <;> simp

variable {events : List Core.Event} {error : Option RuntimeError} {chunks : List Bytes}

/-- The watcher that takes everything shows whether the limit was kept. -/
theorem fits_of_delivers {texts : List Bytes}
    (htexts : List.Forall₂ F.WrittenAs (records F events error) texts)
    (hcut : cut newline chunks.flatten = (texts, [])) (h : Delivers F events error chunks) :
    Fits chunks := by
  rw [fits_iff]
  by_contra hfits
  have hlarge := @watchChunks_tooLarge F 200 [] chunks texts hcut (event_of_dropLast htexts) hfits []
  have hwatch := h accept
  rw [watch_eventsResponse, delivered_accept] at hwatch
  rw [hwatch] at hlarge
  exact ending_ne error (Except.error.inj hlarge)

/-- The lines of the stream are the texts of its records. -/
theorem exists_cut (hwritten : ∀ record ∈ records F events error, ∃ text, F.WrittenAs record text)
    (hchunks : chunks.flatten = (getEvents F events error).flatten) :
    ∃ texts, List.Forall₂ F.WrittenAs (records F events error) texts ∧
      cut newline chunks.flatten = (texts, []) := by
  obtain ⟨texts, htexts, honeLine⟩ := exists_texts hwritten
  exact ⟨texts, htexts, by rw [hchunks, getEvents_eq htexts, cut_lines honeLine]⟩

/-- The events of every stream arrive whatever the receiver does, if and only if what was left before
    each chunk together with the chunk is within the limit. -/
theorem delivers_iff (hwritten : ∀ record ∈ records F events error, ∃ text, F.WrittenAs record text)
    (hchunks : chunks.flatten = (getEvents F events error).flatten) :
    Delivers F events error chunks ↔ Fits chunks := by
  obtain ⟨texts, htexts, hcut⟩ := exists_cut hwritten hchunks
  refine ⟨fits_of_delivers htexts hcut, fun hfits receive => ?_⟩
  have hwatch := @watchChunks_eq F 200 receive [] chunks (List.not_mem_nil) (fits_iff.mp hfits) []
  rw [List.nil_append, watchBytes, pending, hcut] at hwatch
  rw [watch_eventsResponse, hwatch]
  exact receiveLines_written htexts []

/-- A record that is as long as the limit is refused however its line is cut: the newline counts
    too. -/
theorem not_delivers_of_length
    (hwritten : ∀ record ∈ records F events error, ∃ text, F.WrittenAs record text)
    (hchunks : chunks.flatten = (getEvents F events error).flatten) {record : StreamRecord}
    {text : Bytes} (hrecord : record ∈ records F events error) (htext : F.WrittenAs record text)
    (hlength : maxResponseBody ≤ text.length) : ¬ Delivers F events error chunks := by
  intro h
  obtain ⟨texts, htexts, hcut⟩ := exists_cut hwritten hchunks
  have hfits := fits_iff.mp (fits_of_delivers htexts hcut h)
  have hlt := length_lt_of_fitsFrom (List.not_mem_nil) hfits text
    (by rw [List.nil_append, hcut]; exact mem_texts htexts hrecord htext)
  omega

/-! ## A limit that is reached -/

/-- The record of an event with a string value, where no character needs an escape. -/
def plainText (event : Event) : Bytes :=
  Utf8.encode "\x7b\"event\":\x7b\"device_id\":\"" ++ Utf8.encode event.deviceId ++
    Utf8.encode "\",\"capability_id\":\"" ++ Utf8.encode event.capabilityId ++
    Utf8.encode "\",\"value\":\x7b\"kind\":\"string\",\"string\":\"" ++
    Utf8.encode (event.value.string.getD "") ++
    Utf8.encode "\"\x7d,\"revision\":" ++ Utf8.encode (toString event.revision) ++
    Utf8.encode ",\"occurred_at\":\"" ++ Utf8.encode event.occurredAt ++ Utf8.encode "\"\x7d\x7d"

/-- Texts in which these events are read. -/
def plainTexts (events : List Event) : Texts where
  toVec record :=
    match record.event with
    | some event => .ok (plainText event)
    | none => .error "not an event"
  fromSlice text :=
    match events.find? (plainText · = text) with
    | some event => .ok ⟨some event, none⟩
    | none => .error "expected value"
  payloadFromSlice _ := .error "expected value"
  rfc3339 _ := .ok "1970-01-01T00:00:00Z"
  status _ := "200 OK"
  reason _ := ""

/-- A note of `n` letters. -/
def note (revision n : Nat) : Core.Event where
  deviceId := ⟨"board", by decide⟩
  capabilityId := ⟨"note", by decide⟩
  value := .string (String.ofList (List.replicate n 'a'))
  revision
  occurredAt := 0

def noteEvent (revision n : Nat) : Event :=
  ⟨"board", "note", valueFromCore (.string (String.ofList (List.replicate n 'a'))), revision,
    "1970-01-01T00:00:00Z"⟩

def noteHead : Bytes :=
  Utf8.encode "\x7b\"event\":\x7b\"device_id\":\"" ++ Utf8.encode "board" ++ Utf8.encode "\",\"capability_id\":\"" ++
    Utf8.encode "note" ++ Utf8.encode "\",\"value\":\x7b\"kind\":\"string\",\"string\":\""

def noteTail (revision : Nat) : Bytes :=
  Utf8.encode "\"\x7d,\"revision\":" ++ (Utf8.encode (toString revision) ++
    (Utf8.encode ",\"occurred_at\":\"" ++ Utf8.encode "1970-01-01T00:00:00Z" ++ Utf8.encode "\"\x7d\x7d"))

theorem plainText_note (revision n : Nat) :
    plainText (noteEvent revision n) =
      noteHead ++ (Utf8.encode (String.ofList (List.replicate n 'a')) ++ noteTail revision) := by
  simp only [plainText, noteEvent, valueFromCore, Option.getD_some, noteHead, noteTail,
    List.append_assoc]

/-- Two notes of one length, and the texts in which they are read. -/
def notes (n : Nat) : List Core.Event := [note 1 n, note 2 n]

def noteTexts (n : Nat) : Texts := plainTexts [noteEvent 1 n, noteEvent 2 n]

theorem plainText_ne (n : Nat) : plainText (noteEvent 1 n) ≠ plainText (noteEvent 2 n) := by
  rw [plainText_note, plainText_note]
  intro h
  have htail : noteTail 1 = noteTail 2 := List.append_cancel_left (List.append_cancel_left h)
  have hdigit := List.append_cancel_right (List.append_cancel_left htail)
  exact absurd hdigit (by decide)

theorem length_note {revision : Nat} (hrevision : revision = 1 ∨ revision = 2) (n : Nat) :
    (plainText (noteEvent revision n)).length = 142 + n := by
  have hhead : noteHead.length = 88 := by
    simp only [noteHead, List.length_append]
    rfl
  have htail : (noteTail revision).length = 54 := by
    simp only [noteTail, List.length_append]
    obtain rfl | rfl := hrevision <;> rfl
  have hletters : (List.replicate n 'a').all (·.toNat < 128) = true := by
    refine List.all_eq_true.mpr fun c hc => ?_
    rw [List.eq_of_mem_replicate hc]
    decide
  rw [plainText_note, List.length_append, List.length_append, Utf8.length_encode_ascii hletters,
    List.length_replicate, hhead, htail]
  omega

theorem written_note {revision : Nat} (hrevision : revision = 1 ∨ revision = 2) (n : Nat) :
    (noteTexts n).WrittenAs (eventRecord (noteTexts n) (note revision n))
      (plainText (noteEvent revision n)) where
  toVec := rfl
  fromSlice := by
    simp only [noteTexts, plainTexts, List.find?_cons]
    obtain rfl | rfl := hrevision
    · simp only [decide_true]
      rfl
    · simp only [plainText_ne n, decide_false, decide_true]
      rfl
  nonempty := by
    rw [← List.length_pos_iff_ne_nil, length_note hrevision]
    omega
  oneLine := by
    have hdigit : newline ∉ Utf8.encode (toString revision) := by
      obtain rfl | rfl := hrevision
      all_goals exact Utf8.not_mem_encode_ofList (by decide) (by decide)
    have hletters : newline ∉ Utf8.encode (String.ofList (List.replicate n 'a')) := by
      refine Utf8.not_mem_encode_ofList (by decide) (List.all_eq_true.mpr fun c hc => ?_)
      rw [List.eq_of_mem_replicate hc]
      decide
    simp only [plainText_note, noteHead, noteTail, List.mem_append, not_or]
    refine ⟨⟨⟨⟨⟨?_, ?_⟩, ?_⟩, ?_⟩, ?_⟩, hletters, ?_, hdigit, ⟨?_, ?_⟩, ?_⟩
    all_goals exact Utf8.not_mem_encode_ofList (by decide) (by decide)

theorem records_notes (n : Nat) : records (noteTexts n) (notes n) none =
    [eventRecord (noteTexts n) (note 1 n), eventRecord (noteTexts n) (note 2 n)] := rfl

theorem written_notes (n : Nat) : ∀ record ∈ records (noteTexts n) (notes n) none,
    ∃ text, (noteTexts n).WrittenAs record text ∧ text.length = 142 + n := by
  rw [records_notes, List.forall_mem_cons, List.forall_mem_singleton]
  exact ⟨⟨_, written_note (.inl rfl) n, length_note (.inl rfl) n⟩,
    ⟨_, written_note (.inr rfl) n, length_note (.inr rfl) n⟩⟩

theorem texts_notes (n : Nat) :
    List.Forall₂ (noteTexts n).WrittenAs (records (noteTexts n) (notes n) none)
      [plainText (noteEvent 1 n), plainText (noteEvent 2 n)] := by
  rw [records_notes]
  exact .cons (written_note (.inl rfl) n) (.cons (written_note (.inr rfl) n) .nil)

theorem length_notes (n : Nat) :
    (getEvents (noteTexts n) (notes n) none).flatten.length = 286 + 2 * n := by
  simp only [getEvents_eq (texts_notes n), List.flatMap_cons, List.flatMap_nil, List.length_append,
    length_note (.inl rfl), length_note (.inr rfl), List.length_singleton, List.length_nil]
  omega

/-- Two empty notes, cut in the middle of the first one. -/
theorem delivers_notes :
    Delivers (noteTexts 0) (notes 0) none
      [(getEvents (noteTexts 0) (notes 0) none).flatten.take 100,
        (getEvents (noteTexts 0) (notes 0) none).flatten.drop 100] := by
  have hflatten : [(getEvents (noteTexts 0) (notes 0) none).flatten.take 100,
      (getEvents (noteTexts 0) (notes 0) none).flatten.drop 100].flatten =
        (getEvents (noteTexts 0) (notes 0) none).flatten := by
    rw [List.flatten_cons, List.flatten_singleton, List.take_append_drop]
  refine (delivers_iff (fun record h => (written_notes 0 record h).imp fun _ htext => htext.1)
    hflatten).mpr (fits_of_length ?_)
  rw [hflatten, length_notes]
  decide

/-- No line ends within the first note. -/
theorem pending_notes {n k : Nat} (hk : k ≤ 142 + n) :
    (pending newline ((getEvents (noteTexts n) (notes n) none).flatten.take k)).length = k := by
  have hlength := length_note (.inl rfl) n
  have honeLine := (written_note (.inl rfl) n).oneLine
  rw [getEvents_eq (texts_notes n), List.flatMap_cons, List.append_assoc,
    List.take_append_of_le_length (by omega), pending,
    cut_of_not_mem fun h => honeLine (List.mem_of_mem_take h), List.length_take]
  omega

/-- Two notes whose records have 1000000 bytes each, in chunks of the 417792 bytes that the HTTP
    client reads at most at a time. -/
def noteChunks : List Bytes :=
  [417792, 417792, 417792, 417792, 328834].splitLengths
    (getEvents (noteTexts 999858) (notes 999858) none).flatten

theorem flatten_noteChunks :
    noteChunks.flatten = (getEvents (noteTexts 999858) (notes 999858) none).flatten :=
  List.flatten_splitLengths _ _ (by rw [length_notes]; decide)

/-- The first note is not yet complete when the third chunk comes. -/
theorem not_fits_noteChunks : ¬ Fits noteChunks := by
  intro hfits
  simp only [noteChunks, List.splitLengths_cons] at hfits
  have hthird := hfits [_, _] _ _ rfl
  simp only [List.flatten_cons, List.flatten_nil, List.append_nil, ← List.take_add,
    pending_notes (show 417792 + 417792 ≤ 142 + 999858 by decide), List.length_take,
    List.length_drop, length_notes] at hthird
  exact absurd hthird (by decide)

theorem not_delivers_notes :
    (∀ record ∈ records (noteTexts 999858) (notes 999858) none,
        ∃ text, (noteTexts 999858).WrittenAs record text ∧ text.length < maxResponseBody) ∧
      noteChunks.flatten = (getEvents (noteTexts 999858) (notes 999858) none).flatten ∧
      (∀ chunk ∈ noteChunks, chunk.length ≤ 417792) ∧
      ¬ Delivers (noteTexts 999858) (notes 999858) none noteChunks := by
  refine ⟨fun record h => ?_, flatten_noteChunks,
    List.length_mem_splitLengths _ _ _ (by decide), fun h => ?_⟩
  · obtain ⟨text, htext, hlength⟩ := written_notes 999858 record h
    exact ⟨text, htext, by rw [hlength, maxResponseBody]; omega⟩
  · obtain ⟨texts, htexts, hcut⟩ := exists_cut
      (fun record h => (written_notes 999858 record h).imp fun _ htext => htext.1) flatten_noteChunks
    exact not_fits_noteChunks (fits_of_delivers htexts hcut h)

end Oikade.Admin.Events
