/-
  The frames of the two RPC protocols: envelopes, the encoders and the decoders
  (`oikade-plugin-api/src/codec.rs` and `oikade-adapter-api/src/codec.rs`).

  A frame is a line of JSON text. The text layer is serde_json's and a parameter (`SerdeJson`): what
  is modelled is between the bytes and the JSON trees, and between the trees and the envelopes. The
  body of an envelope is a raw value, the tree that its text stands for. The adapter codec decodes a
  frame to a value without repeated keys first (`Strict`), and the body is the text of its part.

  The four decoders have one loop (`Lines.decode`), the four encoders one body (`encodeLine`).
  Envelopes are read as serde's derived code does it: a field at most once, from an object or from an
  array of the fields in order, unknown fields passed over, `null` for an optional field that is
  absent. The texts of serde_json's errors are left out.
-/
import Oikade.Lib.Lines
import Oikade.Codec.Strict

namespace Oikade.Codec

abbrev Bytes := List UInt8

/-- `MAX_FRAME_SIZE`, the same in both codecs. -/
def maxFrameSize : Nat := 1048576

def newline : UInt8 := 10

/-- `u8::is_ascii_whitespace` -/
def isAsciiWhitespace (b : UInt8) : Bool := b = 32 || b = 9 || b = 10 || b = 12 || b = 13

def trimAsciiWhitespace (value : Bytes) : Bytes :=
  ((value.dropWhile isAsciiWhitespace).reverse.dropWhile isAsciiWhitespace).reverse

/-- The text layer: `to_vec` of what serialises as a tree, and the tree that a text is parsed to. -/
structure SerdeJson where
  toVec : Json → Except String Bytes
  fromSlice : Bytes → Except String Json

/-- A stream of bytes; a read fails with a text. -/
abbrev Reader := Lines.Source UInt8 String

/-! ## Reading fields -/

def readU32 : Json → Option UInt32
  | .number (.posInt n) => if n.toNat < 2 ^ 32 then some n.toUInt32 else none
  | _ => none

def readU64 : Json → Option UInt64
  | .number (.posInt n) => some n
  | _ => none

def readString : Json → Option String
  | .string s => some s
  | _ => none

def readOption {β : Type} (read : Json → Option β) : Json → Option (Option β)
  | .null => some none
  | t => (read t).map some

/-- The members of a struct: an object, or an array of its fields in order. -/
def structMembers (names : List String) : Json → Option (List (String × Json))
  | .object members => some members
  | .array items => if items.length ≤ names.length then some (names.zip items) else none
  | _ => none

def field (name : String) (members : List (String × Json)) : List Json :=
  (members.filter (·.1 = name)).map Prod.snd

def required {β : Type} (read : Json → Option β) (name : String) (members : List (String × Json)) :
    Option β :=
  match field name members with
  | [t] => read t
  | _ => none

def defaulted {β : Type} (read : Json → Option β) (absent : β) (name : String)
    (members : List (String × Json)) : Option β :=
  match field name members with
  | [] => some absent
  | [t] => read t
  | _ => none

@[simp] theorem field_nil (name : String) : field name [] = [] := rfl

@[simp] theorem field_append (name : String) (ms ns : List (String × Json)) :
    field name (ms ++ ns) = field name ms ++ field name ns := by
  simp [field]

@[simp] theorem field_cons (name key : String) (t : Json) (ms : List (String × Json)) :
    field name ((key, t) :: ms) = if key = name then t :: field name ms else field name ms := by
  by_cases h : key = name <;> simp [field, h]

theorem readU32_toUInt64 (n : UInt32) : readU32 (.number (.posInt n.toUInt64)) = some n := by
  have h : n.toUInt64.toNat < 2 ^ 32 := by
    rw [UInt32.toNat_toUInt64]
    exact n.toNat_lt
  simp only [readU32, if_pos h, UInt32.toUInt32_toUInt64]

theorem readOption_of_ne {β : Type} {read : Json → Option β} {t : Json} (h : t ≠ .null) :
    readOption read t = (read t).map some := by
  cases t with
  | null => exact absurd rfl h
  | bool _ | number _ | string _ | array _ | object _ => rfl

/-! ## Envelopes -/

structure ProtocolError where
  code : String
  message : String
  deriving DecidableEq, Repr

def ProtocolError.toJson (e : ProtocolError) : Json :=
  .object [("code", .string e.code), ("message", .string e.message)]

def readProtocolError (t : Json) : Option ProtocolError := do
  let members ← structMembers ["code", "message"] t
  let code ← required readString "code" members
  let message ← required readString "message" members
  return ⟨code, message⟩

/-- A field that is skipped when it has its default. -/
def idMembers (id : UInt64) : List (String × Json) :=
  if id = 0 then [] else [("id", .number (.posInt id))]

def bodyMembers : Option Json → List (String × Json)
  | none => []
  | some t => [("body", t)]

def errorMembers : Option ProtocolError → List (String × Json)
  | none => []
  | some e => [("error", e.toJson)]

def version : UInt32 := 1

/-- The body of the encoders: the bytes handed to `write_all`. -/
def encodeLine {W : Type} (J : SerdeJson) (encode : String → W) (frameTooLarge : W) (t : Json) :
    Except W Bytes :=
  match J.toVec t with
  | .error e => .error (encode e)
  | .ok encoded =>
    if maxFrameSize < encoded.length + 1 then .error frameTooLarge
    else .ok (encoded ++ [newline])

namespace Plugin

inductive WireError where
  /-- "plugin frame exceeds .. bytes" -/
  | frameTooLarge
  /-- "read plugin frame: .." -/
  | read (message : String)
  /-- "decode plugin frame: .." -/
  | decode
  /-- "unsupported plugin frame version .." -/
  | unsupportedVersion (version : UInt32)
  /-- "plugin frame method is required" -/
  | missingMethod
  /-- "encode plugin frame: .." -/
  | encode (message : String)
  deriving DecidableEq, Repr

structure Envelope where
  version : UInt32
  id : UInt64
  method : String
  body : Option Json
  error : Option ProtocolError

def Envelope.toJson (e : Envelope) : Json :=
  .object ([("version", .number (.posInt e.version.toUInt64))] ++ idMembers e.id ++
    [("method", .string e.method)] ++ bodyMembers e.body ++ errorMembers e.error)

def readEnvelope (t : Json) : Option Envelope := do
  let members ← structMembers ["version", "id", "method", "body", "error"] t
  let version ← required readU32 "version" members
  let id ← defaulted readU64 0 "id" members
  let method ← required readString "method" members
  let body ← defaulted (readOption some) none "body" members
  let error ← defaulted (readOption readProtocolError) none "error" members
  return ⟨version, id, method, body, error⟩

def validateEnvelope (e : Envelope) : Except WireError Unit :=
  if e.version ≠ Codec.version then .error (.unsupportedVersion e.version)
  else if e.method.isEmpty then .error .missingMethod
  else .ok ()

/-- What the decoders make of a line. -/
def decodeLine (J : SerdeJson) (line : Bytes) : Except WireError Envelope :=
  match J.fromSlice (trimAsciiWhitespace line) with
  | .error _ => .error .decode
  | .ok t =>
    match readEnvelope t with
    | none => .error .decode
    | some e => (validateEnvelope e).map fun _ => e

def wrap : Lines.Error String → WireError
  | .tooLarge => .frameTooLarge
  | .read message => .read message

def Decoder.decode (J : SerdeJson) (r : Reader) : Except WireError (Option Envelope) × Reader :=
  Lines.decode newline maxFrameSize wrap (decodeLine J) r

def AsyncDecoder.decode (J : SerdeJson) (r : Reader) : Except WireError (Option Envelope) × Reader :=
  Lines.decode newline maxFrameSize wrap (decodeLine J) r

def Encoder.encode (J : SerdeJson) (e : Envelope) : Except WireError Bytes :=
  encodeLine J .encode .frameTooLarge e.toJson

def AsyncEncoder.encode (J : SerdeJson) (e : Envelope) : Except WireError Bytes :=
  encodeLine J .encode .frameTooLarge e.toJson

end Plugin

namespace Adapter

inductive WireError where
  /-- "adapter frame exceeds .. bytes" -/
  | frameTooLarge
  /-- "read adapter frame: .." -/
  | read (message : String)
  /-- "decode adapter frame: .." -/
  | decode
  /-- "unsupported adapter frame version .." -/
  | unsupportedVersion (version : UInt32)
  /-- "adapter frame method is required" -/
  | missingMethod
  /-- "adapter request ID must be non-zero" -/
  | requestIdZero
  /-- "adapter request cannot contain an error" -/
  | requestWithError
  /-- "adapter response ID must be non-zero" -/
  | responseIdZero
  /-- "adapter notification ID must be zero" -/
  | notificationIdNonZero
  /-- "adapter notification cannot contain an error" -/
  | notificationWithError
  /-- "encode adapter frame: .." -/
  | encode (message : String)
  deriving DecidableEq, Repr

inductive FrameKind where
  | request
  | response
  | notification
  deriving DecidableEq, Repr

def FrameKind.text : FrameKind → String
  | .request => "request"
  | .response => "response"
  | .notification => "notification"

def readVariant (s : String) : Option FrameKind :=
  if s = "request" then some .request
  else if s = "response" then some .response
  else if s = "notification" then some .notification
  else none

/-- A variant without data is its name, or an object with its name and `null`. -/
def readKind : Json → Option FrameKind
  | .string s => readVariant s
  | .object [(s, .null)] => readVariant s
  | _ => none

structure Envelope where
  version : UInt32
  kind : FrameKind
  id : UInt64
  method : String
  body : Option Json
  error : Option ProtocolError

def Envelope.toJson (e : Envelope) : Json :=
  .object ([("version", .number (.posInt e.version.toUInt64)), ("kind", .string e.kind.text)] ++
    idMembers e.id ++ [("method", .string e.method)] ++ bodyMembers e.body ++ errorMembers e.error)

def readEnvelope (t : Json) : Option Envelope := do
  let members ← structMembers ["version", "kind", "id", "method", "body", "error"] t
  let version ← required readU32 "version" members
  let kind ← required readKind "kind" members
  let id ← defaulted readU64 0 "id" members
  let method ← required readString "method" members
  let body ← defaulted (readOption some) none "body" members
  let error ← defaulted (readOption readProtocolError) none "error" members
  return ⟨version, kind, id, method, body, error⟩

def validateEnvelope (e : Envelope) : Except WireError Unit :=
  if e.version ≠ Codec.version then .error (.unsupportedVersion e.version)
  else if e.method.isEmpty then .error .missingMethod
  else match e.kind with
    | .request =>
      if e.id = 0 then .error .requestIdZero
      else if e.error.isSome then .error .requestWithError
      else .ok ()
    | .response => if e.id = 0 then .error .responseIdZero else .ok ()
    | .notification =>
      if e.id ≠ 0 then .error .notificationIdNonZero
      else if e.error.isSome then .error .notificationWithError
      else .ok ()

/-- `from_value` reads the envelope from the value; a raw value is the text of its part. -/
def decodeEnvelope (J : SerdeJson) (bytes : Bytes) : Except WireError Envelope :=
  match J.fromSlice bytes with
  | .error _ => .error .decode
  | .ok t =>
    match Strict.visit t with
    | .error _ => .error .decode
    | .ok value =>
      match readEnvelope value.toJson with
      | none => .error .decode
      | some e => .ok e

def decodeLine (J : SerdeJson) (line : Bytes) : Except WireError Envelope :=
  match decodeEnvelope J (trimAsciiWhitespace line) with
  | .error e => .error e
  | .ok e => (validateEnvelope e).map fun _ => e

def wrap : Lines.Error String → WireError
  | .tooLarge => .frameTooLarge
  | .read message => .read message

def Decoder.decode (J : SerdeJson) (r : Reader) : Except WireError (Option Envelope) × Reader :=
  Lines.decode newline maxFrameSize wrap (decodeLine J) r

def AsyncDecoder.decode (J : SerdeJson) (r : Reader) : Except WireError (Option Envelope) × Reader :=
  Lines.decode newline maxFrameSize wrap (decodeLine J) r

/-- The encoders of the adapter codec validate the envelope first. -/
def encodeFrame (J : SerdeJson) (e : Envelope) : Except WireError Bytes :=
  match validateEnvelope e with
  | .error error => .error error
  | .ok () => encodeLine J .encode .frameTooLarge e.toJson

def Encoder.encode (J : SerdeJson) (e : Envelope) : Except WireError Bytes := encodeFrame J e

def AsyncEncoder.encode (J : SerdeJson) (e : Envelope) : Except WireError Bytes := encodeFrame J e

end Adapter

end Oikade.Codec
