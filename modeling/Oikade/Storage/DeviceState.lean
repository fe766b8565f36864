/-
  The stored values of devices (`oikade-storage/src/device_state.rs`).

  A record is a JSON text under the key of its device, in the bucket of the devices. The text layer
  is serde_json's and a parameter (`SerdeJson`); what is modelled is between the trees and the
  values, as serde's derived code does it: unknown fields are refused, a field is met at most once,
  an optional one may be absent or `null`, a struct is also read from an array of its fields. The
  write transaction of redb is a parameter of `save`: one that fails is not committed.

  * `tryFrom_ok`: a persisted value is accepted exactly as what `fromValue` made of a valid value.
  * `readDeviceState_toJson`: a record is read back from its tree.
  * `deviceState_roundTrip`: `save` and `load`.
-/
import Oikade.Codec.Frames
import Oikade.Core.Runtime
import Oikade.Lib.Fallible
import Oikade.Storage.Bucket

namespace Oikade.Storage

open Oikade.Core (CapabilityId DeviceId Identifier ModelError Record Value ValueKind validateIdentifier)
open Codec (SerdeJson structMembers required defaulted readU32 readString readOption)

/-! ## Records -/

def deviceStateFormat : UInt32 := 1

def maxDeviceStateSize : Nat := 1048576

inductive DeviceStateError where
  /-- "device state exceeds 1048576 bytes" -/
  | tooLarge
  /-- "invalid device state: .." -/
  | invalid (error : ModelError)
  /-- "persisted value must contain exactly one payload" -/
  | payloads
  /-- ".. value has the wrong payload" -/
  | wrongPayload (kind : ValueKind)
  /-- "unsupported value kind .." -/
  | unsupportedKind (kind : String)
  /-- "unsupported device state format ..; this build supports .." -/
  | unsupportedFormat (found supported : UInt32)
  /-- a `StorageError` -/
  | storage (error : StorageError)
  /-- a `StorageError` from redb -/
  | database (message : String)
  /-- "decode device state: .." -/
  | decode
  deriving DecidableEq, Repr

structure PersistedValue where
  kind : String
  bool : Option Bool
  integer : Option Int64
  number : Option Float64
  string : Option String
  deriving DecidableEq, Repr

structure PersistedDeviceState where
  version : UInt32
  values : Std.ExtTreeMap String PersistedValue

/-- `From<Value> for PersistedValue` -/
def PersistedValue.fromValue : Value → PersistedValue
  | .bool value => ⟨"bool", some value, none, none, none⟩
  | .integer value => ⟨"integer", none, some value, none, none⟩
  | .number value => ⟨"number", none, none, some value, none⟩
  | .string value => ⟨"string", none, none, none, some value⟩

def payload {β : Type} (kind : ValueKind) (value : Option β) (make : β → Value) :
    Except DeviceStateError Value :=
  match value with
  | some value => .ok (make value)
  | none => .error (.wrongPayload kind)

/-- The payload that the kind asks for. -/
def PersistedValue.decoded (value : PersistedValue) : Except DeviceStateError Value :=
  if value.kind = "bool" then payload .bool value.bool .bool
  else if value.kind = "integer" then payload .integer value.integer .integer
  else if value.kind = "number" then payload .number value.number .number
  else if value.kind = "string" then payload .string value.string .string
  else .error (.unsupportedKind value.kind)

/-- `TryFrom<PersistedValue> for Value` -/
def PersistedValue.tryInto (value : PersistedValue) : Except DeviceStateError Value := do
  let payloads := value.bool.isSome.toNat + value.integer.isSome.toNat + value.number.isSome.toNat +
    value.string.isSome.toNat
  if payloads ≠ 1 then throw .payloads
  let decoded ← value.decoded
  decoded.validate.mapError .invalid
  pure decoded

/-! ## Records as trees -/

/-- The members of an optional field, which is skipped when it is absent. -/
def optional {β : Type} (name : String) (write : β → Json) (value : Option β) :
    List (String × Json) :=
  (value.map fun value => (name, write value)).toList

def writeI64 (n : Int64) : Json :=
  .number (if h : n < 0 then .negInt n h else .posInt n.toUInt64)

/-- A number that is not finite is written as `null`. -/
def writeF64 (x : Float64) : Json := if h : x.isFinite = true then .number (.float x h) else .null

def PersistedValue.toJson (value : PersistedValue) : Json :=
  .object ([("kind", .string value.kind)] ++ optional "bool" .bool value.bool ++
    optional "integer" writeI64 value.integer ++ optional "number" writeF64 value.number ++
    optional "string" .string value.string)

def PersistedDeviceState.toJson (record : PersistedDeviceState) : Json :=
  .object [("version", .number (.posInt record.version.toUInt64)),
    ("values", .object (record.values.toList.map fun (id, value) => (id, value.toJson)))]

def readBool : Json → Option Bool
  | .bool b => some b
  | _ => none

def readI64 : Json → Option Int64
  | .number (.posInt n) => if n.toNat < 2 ^ 63 then some n.toInt64 else none
  | .number (.negInt n _) => some n
  | _ => none

def readF64 : Json → Option Float64
  | .number (.posInt n) => some (.ofNat n.toNat)
  | .number (.negInt n _) => some (.ofInt n.toInt)
  | .number (.float x _) => some x
  | _ => none

/-- The members of a struct that denies unknown fields. -/
def knownMembers (names : List String) (t : Json) : Option (List (String × Json)) :=
  (structMembers names t).filter fun members => members.all fun m => m.1 ∈ names

/-- A map: the last member of a key counts. -/
def readMap {β : Type} (read : Json → Option β) : Json → Option (Std.ExtTreeMap String β)
  | .object members =>
    (members.mapM fun m => (read m.2).map (m.1, ·)).map fun entries => .ofList entries
  | _ => none

def readPersistedValue (t : Json) : Option PersistedValue := do
  let members ← knownMembers ["kind", "bool", "integer", "number", "string"] t
  let kind ← required readString "kind" members
  let bool ← defaulted (readOption readBool) none "bool" members
  let integer ← defaulted (readOption readI64) none "integer" members
  let number ← defaulted (readOption readF64) none "number" members
  let string ← defaulted (readOption readString) none "string" members
  return ⟨kind, bool, integer, number, string⟩

def readDeviceState (t : Json) : Option PersistedDeviceState := do
  let members ← knownMembers ["version", "values"] t
  let version ← required readU32 "version" members
  let values ← required (readMap readPersistedValue) "values" members
  return ⟨version, values⟩

/-! ## The store -/

def stateKey (device : DeviceId) : String := device.asStr ++ ".state.json"

/-- The body of the loop of `save`. -/
def persistEntry (entry : CapabilityId × Value) :
    Except DeviceStateError (String × PersistedValue) := do
  entry.2.validate.mapError .invalid
  pure (entry.1.asStr, .fromValue entry.2)

/-- The loop of `save`, which inserts the entries into a map. -/
def persist (values : Record) : Except DeviceStateError PersistedDeviceState := do
  let entries ← values.toList.mapM persistEntry
  pure ⟨deviceStateFormat, .ofList entries⟩

/-- The body of the loop of `load`. -/
def restoreEntry (entry : String × PersistedValue) :
    Except DeviceStateError (CapabilityId × Value) := do
  (validateIdentifier entry.1).mapError .invalid
  let id ← (Identifier.new entry.1).mapError .invalid
  let value ← entry.2.tryInto
  pure (id, value)

/-- The loop of `load`, which inserts the entries into a map. -/
def restore (record : PersistedDeviceState) : Except DeviceStateError Record := do
  let entries ← record.values.toList.mapM restoreEntry
  pure (.ofList entries)

/-- `PersistedDeviceState::deserialize` and `Deserializer::end` -/
def deserialize (J : SerdeJson) (encoded : Bytes) : Except DeviceStateError PersistedDeviceState :=
  match J.fromSlice encoded with
  | .error _ => .error .decode
  | .ok t => match readDeviceState t with
    | none => .error .decode
    | some record => .ok record

/-- What `load` makes of the stored bytes. -/
def decodeState (J : SerdeJson) (encoded : Bytes) : Except DeviceStateError Record := do
  if maxDeviceStateSize < encoded.length then throw .tooLarge
  let record ← deserialize J encoded
  if record.version ≠ deviceStateFormat then
    throw (.unsupportedFormat record.version deviceStateFormat)
  restore record

/-- The bytes that `save` stores. -/
def encodeState (J : SerdeJson) (values : Record) : Except DeviceStateError Bytes := do
  let record ← persist values
  let encoded ← (J.toVec record.toJson).mapError fun _ => .decode
  if maxDeviceStateSize < encoded.length then throw .tooLarge
  pure encoded

/-- `DeviceStateStore::load` -/
def load (J : SerdeJson) (device : DeviceId) (db : Database) :
    Except DeviceStateError (Option Record) :=
  match (bucket .devices).get (stateKey device) db with
  | .error .notFound => .ok none
  | .error e => .error (.storage e)
  | .ok encoded => (decodeState J encoded).map some

/-- `DeviceStateStore::save`. `redb` is what the write transaction returns. -/
def save (J : SerdeJson) (redb : Except String Unit) (device : DeviceId) (values : Record)
    (db : Database) : Except DeviceStateError Unit × Database :=
  match encodeState J values with
  | .error e => (.error e, db)
  | .ok encoded =>
    match (bucket .devices).set (stateKey device) encoded db, redb with
    | (.error e, _), _ => (.error (.storage e), db)
    | (.ok (), _), .error message => (.error (.database message), db)
    | (.ok (), db'), .ok () => (.ok (), db')

/-! ## Values -/

theorem payload_ok {β : Type} {kind : ValueKind} {value : Option β} {make : β → Value} {v : Value} :
    payload kind value make = .ok v ↔ ∃ b, value = some b ∧ v = make b := by
  cases value <;> simp [payload, eq_comm]

/-- With one payload, what the kind asks for is what `fromValue` has stored. -/
theorem PersistedValue.decoded_ok {p : PersistedValue} {v : Value}
    (hcount : p.bool.isSome.toNat + p.integer.isSome.toNat + p.number.isSome.toNat +
      p.string.isSome.toNat = 1) (h : p.decoded = .ok v) : p = .fromValue v := by
  obtain ⟨kind, bool, integer, number, string⟩ := p
  simp only [decoded] at h
  split_ifs at h with hbool hinteger hnumber hstring
  · obtain ⟨b, rfl, rfl⟩ := payload_ok.mp h
    cases integer <;> cases number <;> cases string <;> simp_all [fromValue]
  · obtain ⟨b, rfl, rfl⟩ := payload_ok.mp h
    cases bool <;> cases number <;> cases string <;> simp_all [fromValue]
  · obtain ⟨b, rfl, rfl⟩ := payload_ok.mp h
    cases bool <;> cases integer <;> cases string <;> simp_all [fromValue]
  · obtain ⟨b, rfl, rfl⟩ := payload_ok.mp h
    cases bool <;> cases integer <;> cases number <;> simp_all [fromValue]

/-- A persisted value is accepted exactly if it is what `fromValue` makes of a valid value. -/
theorem PersistedValue.tryInto_ok {p : PersistedValue} {v : Value} :
    p.tryInto = .ok v ↔ p = .fromValue v ∧ v.validate = .ok () := by
  unfold tryInto
  constructor
  · intro h
    obtain ⟨hcount, h⟩ := Fallible.check_ok.mp h
    obtain ⟨decoded, hdecoded, h⟩ := Fallible.bind_ok.mp h
    obtain ⟨⟨⟩, hvalid, h⟩ := Fallible.bind_ok.mp h
    cases Except.ok.inj h
    exact ⟨decoded_ok (Decidable.not_not.mp hcount) hdecoded, Fallible.mapError_ok.mp hvalid⟩
  · rintro ⟨rfl, hvalid⟩
    refine Fallible.check_ok.mpr ⟨by cases v <;> simp [fromValue], ?_⟩
    refine Fallible.bind_ok.mpr ⟨v, by cases v <;> rfl, ?_⟩
    exact Fallible.bind_ok.mpr ⟨⟨⟩, Fallible.mapError_ok.mpr hvalid, rfl⟩

theorem PersistedValue.fromValue_inj {v w : Value} (h : fromValue v = fromValue w) : v = w := by
  cases v <;> cases w <;> simp_all [fromValue]

theorem PersistedValue.fromValue_kind (v : Value) : (PersistedValue.fromValue v).kind = v.kind.asStr := by
  cases v <;> rfl

theorem readI64_writeI64 (n : Int64) : readI64 (writeI64 n) = some n := by
  unfold writeI64
  split
  · rfl
  · rename_i h
    have hn : (0 : Int) ≤ n.toBitVec.toInt := by
      have := mt Int64.lt_iff_toInt_lt.mpr h
      simpa using this
    have hlt : n.toUInt64.toNat < 2 ^ 63 := by
      have := BitVec.toInt_pos_iff.mp hn
      have hnat : n.toUInt64.toNat = n.toBitVec.toNat := rfl
      omega
    simp only [readI64, if_pos hlt, Int64.toInt64_toUInt64]

theorem readF64_writeF64 {x : Float64} (h : x.isFinite = true) : readF64 (writeF64 x) = some x := by
  rw [writeF64, dif_pos h]
  rfl

/-- A field of a persisted value is read back. -/
theorem defaulted_optional {β : Type} {read : Json → Option β} (write : β → Json) {name : String}
    {members : List (String × Json)} {value : Option β}
    (hfield : Codec.field name members = (value.map write).toList)
    (hread : ∀ b ∈ value, read (write b) = some b ∧ write b ≠ .null) :
    defaulted (readOption read) none name members = some value := by
  rw [defaulted, hfield]
  cases value with
  | none => rfl
  | some b =>
    obtain ⟨hb, hne⟩ := hread b rfl
    simp only [Option.map_some, Option.toList_some, Codec.readOption_of_ne hne, hb]

@[simp] theorem field_optional {β : Type} (name key : String) (write : β → Json) (value : Option β) :
    Codec.field name (optional key write value) =
      if key = name then (value.map write).toList else [] := by
  cases value <;> by_cases h : key = name <;> simp [optional, h]

/-- A persisted value whose number is finite is read back from its tree. -/
theorem readPersistedValue_toJson {p : PersistedValue} (h : ∀ x ∈ p.number, x.isFinite = true) :
    readPersistedValue p.toJson = some p := by
  obtain ⟨kind, bool, integer, number, string⟩ := p
  unfold PersistedValue.toJson readPersistedValue
  simp only
  generalize hms : ([("kind", Json.string kind)] ++ optional "bool" .bool bool ++
    optional "integer" writeI64 integer ++ optional "number" writeF64 number ++
    optional "string" .string string) = members
  have hknown : knownMembers ["kind", "bool", "integer", "number", "string"] (.object members) =
      some members := by
    subst hms
    cases bool <;> cases integer <;> cases number <;> cases string <;>
      simp [knownMembers, structMembers, optional]
  have hkind : required readString "kind" members = some kind := by
    simp [required, ← hms, readString]
  have hbool : defaulted (readOption readBool) none "bool" members = some bool := by
    refine defaulted_optional .bool ?_ fun b _ => ⟨rfl, by simp⟩
    simp [← hms]
  have hinteger : defaulted (readOption readI64) none "integer" members = some integer := by
    refine defaulted_optional writeI64 ?_ fun n _ => ⟨readI64_writeI64 n, by simp [writeI64]⟩
    simp [← hms]
  have hnumber : defaulted (readOption readF64) none "number" members = some number := by
    refine defaulted_optional writeF64 ?_ fun x hx => ⟨readF64_writeF64 (h x hx), ?_⟩
    · simp [← hms]
    · simp [writeF64, h x hx]
  have hstring : defaulted (readOption readString) none "string" members = some string := by
    refine defaulted_optional .string ?_ fun s _ => ⟨rfl, by simp⟩
    simp [← hms]
  simp only [hknown, hkind, hbool, hinteger, hnumber, hstring, Option.bind_eq_bind,
    Option.bind_some, Option.pure_def]

/-! ## Maps -/

section Map

variable {κ β : Type} [Ord κ] [Std.TransOrd κ] [Std.LawfulEqOrd κ]

theorem nodup_keys (m : Std.ExtTreeMap κ β) : (m.toList.map Prod.fst).Nodup := by
  refine List.pairwise_map.mpr (Std.ExtTreeMap.distinct_keys_toList.imp fun hne heq => ?_)
  exact hne (by rw [heq]; exact Std.ReflCmp.compare_self)

variable [DecidableEq κ]

/-- The map of a list without repeated keys has its entries. -/
theorem getElem?_ofList {entries : List (κ × β)} (h : (entries.map Prod.fst).Nodup) {k : κ} {v : β} :
    (Std.ExtTreeMap.ofList entries)[k]? = some v ↔ (k, v) ∈ entries := by
  have hdistinct : entries.Pairwise fun a b => ¬ compare a.1 b.1 = .eq := by
    refine (List.pairwise_map.mp h).imp fun hne heq => ?_
    exact hne (Std.LawfulEqOrd.eq_of_compare heq)
  constructor
  · intro hget
    have hmem : k ∈ Std.ExtTreeMap.ofList entries :=
      Std.ExtTreeMap.isSome_getElem?_iff_mem.mp (by rw [hget]; rfl)
    have hkey : k ∈ entries.map Prod.fst := by
      rw [Std.ExtTreeMap.mem_ofList] at hmem
      exact List.contains_iff_mem.mp hmem
    obtain ⟨⟨k', w⟩, hw, rfl⟩ := List.mem_map.mp hkey
    have hval := Std.ExtTreeMap.getElem?_ofList_of_mem Std.ReflCmp.compare_self hdistinct hw
    rw [hval] at hget
    exact Option.some.inj hget ▸ hw
  · exact Std.ExtTreeMap.getElem?_ofList_of_mem Std.ReflCmp.compare_self hdistinct

theorem ofList_toList (m : Std.ExtTreeMap κ β) : Std.ExtTreeMap.ofList m.toList = m := by
  refine Std.ExtTreeMap.ext_getElem? fun k => Option.ext fun v => ?_
  rw [getElem?_ofList (nodup_keys m), Std.ExtTreeMap.mem_toList_iff_getElem?_eq_some]

end Map

/-- The members of a map are read back. -/
theorem mapM_members {β : Type} {read : Json → Option β} {write : β → Json}
    {entries : List (String × β)} (h : ∀ e ∈ entries, read (write e.2) = some e.2) :
    (entries.map fun e => (e.1, write e.2)).mapM (fun m => (read m.2).map (m.1, ·)) =
      some entries := by
  induction entries with
  | nil => rfl
  | cons e entries ih =>
    rw [List.forall_mem_cons] at h
    rw [List.map_cons, List.mapM_cons, h.1, ih h.2]
    rfl

/-- A record whose numbers are finite is read back from its tree. -/
theorem readDeviceState_toJson {record : PersistedDeviceState}
    (h : ∀ (k : String) (p : PersistedValue), record.values[k]? = some p →
      ∀ x ∈ p.number, x.isFinite = true) :
    readDeviceState record.toJson = some record := by
  have hvalues : readMap readPersistedValue
      (.object (record.values.toList.map fun e => (e.1, e.2.toJson))) = some record.values := by
    have hentries : ∀ e ∈ record.values.toList, readPersistedValue e.2.toJson = some e.2 := by
      intro e he
      exact readPersistedValue_toJson
        (h e.1 e.2 (Std.ExtTreeMap.mem_toList_iff_getElem?_eq_some.mp he))
    rw [readMap, mapM_members hentries, Option.map_some, ofList_toList]
  have hknown : ∀ a b : Json, knownMembers ["version", "values"]
      (.object [("version", a), ("values", b)]) = some [("version", a), ("values", b)] := by
    intro a b
    simp [knownMembers, structMembers]
  simp only [readDeviceState, PersistedDeviceState.toJson, hknown, required, Codec.field_cons,
    Codec.field_nil, Option.bind_eq_bind, Option.bind_some, if_true, Option.pure_def,
    String.reduceEq, if_false, Codec.readU32_toUInt64, hvalues]

/-! ## The loops -/

/-- The record holds what `fromValue` makes of the values, which are valid. -/
structure Persists (values : Record) (record : PersistedDeviceState) : Prop where
  version : record.version = deviceStateFormat
  valid : ∀ (id : CapabilityId) (v : Value), values[id]? = some v → v.validate = .ok ()
  entry : ∀ (id : CapabilityId) (v : Value), values[id]? = some v →
    record.values[id.asStr]? = some (.fromValue v)
  only : ∀ k p, record.values[k]? = some p →
    ∃ (id : CapabilityId) (v : Value), id.asStr = k ∧ values[id]? = some v

theorem persistEntry_ok {id : CapabilityId} {v : Value} {e : String × PersistedValue} :
    persistEntry (id, v) = .ok e ↔ v.validate = .ok () ∧ e = (id.asStr, .fromValue v) := by
  unfold persistEntry
  rw [Fallible.bind_ok]
  constructor
  · rintro ⟨⟨⟩, hvalid, h⟩
    exact ⟨Fallible.mapError_ok.mp hvalid, (Except.ok.inj h).symm⟩
  · rintro ⟨hvalid, rfl⟩
    exact ⟨⟨⟩, Fallible.mapError_ok.mpr hvalid, rfl⟩

theorem restoreEntry_ok {k : String} {p : PersistedValue} {id : CapabilityId} {v : Value} :
    restoreEntry (k, p) = .ok (id, v) ↔
      id.asStr = k ∧ p = .fromValue v ∧ v.validate = .ok () := by
  unfold restoreEntry
  rw [Fallible.bind_ok]
  constructor
  · rintro ⟨⟨⟩, -, h⟩
    obtain ⟨id', hid, h⟩ := Fallible.bind_ok.mp h
    obtain ⟨v', hv, h⟩ := Fallible.bind_ok.mp h
    cases Except.ok.inj h
    exact ⟨Identifier.new_ok.mp (Fallible.mapError_ok.mp hid), PersistedValue.tryInto_ok.mp hv⟩
  · rintro ⟨hid, hvalue⟩
    subst hid
    refine ⟨⟨⟩, Fallible.mapError_ok.mpr id.valid, ?_⟩
    refine Fallible.bind_ok.mpr ⟨id, Fallible.mapError_ok.mpr (Identifier.new_ok.mpr rfl), ?_⟩
    exact Fallible.bind_ok.mpr ⟨v, PersistedValue.tryInto_ok.mpr hvalue, rfl⟩

theorem persist_ok {values : Record} {record : PersistedDeviceState}
    (h : persist values = .ok record) : Persists values record := by
  obtain ⟨entries, hentries, h⟩ := Fallible.bind_ok.mp h
  cases Except.ok.inj h
  have hkeys : entries.map Prod.fst = (values.toList.map Prod.fst).map Identifier.asStr := by
    rw [List.map_map]
    exact Fallible.mapM_map (fun e e' he => by rw [(persistEntry_ok.mp he).2]; rfl) hentries
  have hnodup : (entries.map Prod.fst).Nodup := by
    rw [hkeys]
    exact (nodup_keys values).map fun a b hab => Identifier.ext' hab
  have hentry : ∀ (id : CapabilityId) (v : Value), values[id]? = some v →
      v.validate = .ok () ∧ (id.asStr, PersistedValue.fromValue v) ∈ entries := by
    intro id v hv
    obtain ⟨e, he, hmade⟩ := Fallible.mapM_mem_left hentries
      (Std.ExtTreeMap.mem_toList_iff_getElem?_eq_some.mpr hv)
    obtain ⟨hvalid, rfl⟩ := persistEntry_ok.mp hmade
    exact ⟨hvalid, he⟩
  refine ⟨rfl, fun id v hv => (hentry id v hv).1, fun id v hv => ?_, fun k p hp => ?_⟩
  · exact (getElem?_ofList hnodup).mpr (hentry id v hv).2
  · obtain ⟨⟨id, v⟩, hmem, hmade⟩ :=
      Fallible.mapM_mem_right hentries ((getElem?_ofList hnodup).mp hp)
    refine ⟨id, v, ?_, Std.ExtTreeMap.mem_toList_iff_getElem?_eq_some.mp hmem⟩
    exact (congrArg Prod.fst (persistEntry_ok.mp hmade).2).symm

/-- What is restored is what the record holds. -/
theorem persists_of_restore {record : PersistedDeviceState} {values : Record}
    (hversion : record.version = deviceStateFormat) (h : restore record = .ok values) :
    Persists values record := by
  obtain ⟨entries, hentries, h⟩ := Fallible.bind_ok.mp h
  cases Except.ok.inj h
  have hkeys : (entries.map Prod.fst).map Identifier.asStr = record.values.toList.map Prod.fst := by
    rw [List.map_map]
    exact Fallible.mapM_map (fun e e' he => (restoreEntry_ok.mp he).1) hentries
  have hnodup : (entries.map Prod.fst).Nodup :=
    List.Nodup.of_map Identifier.asStr (hkeys ▸ nodup_keys record.values)
  have hentry : ∀ (id : CapabilityId) (v : Value),
      (Std.ExtTreeMap.ofList entries)[id]? = some v →
        v.validate = .ok () ∧ record.values[id.asStr]? = some (.fromValue v) := by
    intro id v hv
    obtain ⟨⟨k, p⟩, hmem, hmade⟩ :=
      Fallible.mapM_mem_right hentries ((getElem?_ofList hnodup).mp hv)
    obtain ⟨rfl, rfl, hvalid⟩ := restoreEntry_ok.mp hmade
    exact ⟨hvalid, Std.ExtTreeMap.mem_toList_iff_getElem?_eq_some.mp hmem⟩
  refine ⟨hversion, fun id v hv => (hentry id v hv).1, fun id v hv => (hentry id v hv).2, ?_⟩
  intro k p hp
  obtain ⟨⟨id, v⟩, hmem, hmade⟩ := Fallible.mapM_mem_left hentries
    (Std.ExtTreeMap.mem_toList_iff_getElem?_eq_some.mpr hp)
  exact ⟨id, v, (restoreEntry_ok.mp hmade).1, (getElem?_ofList hnodup).mpr hmem⟩

/-- A record holds the entries of one map only. -/
theorem Persists.unique {record : PersistedDeviceState} {values values' : Record}
    (h : Persists values record) (h' : Persists values' record) : values = values' := by
  have hsub : ∀ {a b : Record}, Persists a record → Persists b record →
      ∀ (id : CapabilityId) (v : Value), a[id]? = some v → b[id]? = some v := by
    intro a b ha hb id v hv
    obtain ⟨id', w, hid, hw⟩ := hb.only id.asStr _ (ha.entry id v hv)
    cases Identifier.ext' hid
    have hsame := (hb.entry id w hw).symm.trans (ha.entry id v hv)
    rw [PersistedValue.fromValue_inj (Option.some.inj hsame)] at hw
    exact hw
  exact Std.ExtTreeMap.ext_getElem? fun id => Option.ext fun v => ⟨hsub h h' id v, hsub h' h id v⟩

theorem restore_of_persists {record : PersistedDeviceState} {values : Record}
    (h : Persists values record) : restore record = .ok values := by
  have hentries : ∃ entries, record.values.toList.mapM restoreEntry = .ok entries := by
    refine Fallible.mapM_of_forall fun e he => ?_
    have hp := Std.ExtTreeMap.mem_toList_iff_getElem?_eq_some.mp he
    obtain ⟨id, v, hid, hv⟩ := h.only e.1 e.2 hp
    have hfrom := h.entry id v hv
    rw [hid, hp, Option.some.injEq] at hfrom
    exact ⟨(id, v), restoreEntry_ok.mpr ⟨hid, hfrom, h.valid id v hv⟩⟩
  obtain ⟨entries, hentries⟩ := hentries
  have hrestore : restore record = .ok (.ofList entries) :=
    Fallible.bind_ok.mpr ⟨entries, hentries, rfl⟩
  rw [hrestore, (persists_of_restore h.version hrestore).unique h]

/-! ## `save` and `load` -/

theorem stateKey_inj {a b : DeviceId} (h : stateKey a = stateKey b) : a = b := by
  have hchars := congrArg String.toList h
  rw [stateKey, stateKey, String.toList_append, String.toList_append] at hchars
  exact Identifier.ext' (String.toList_inj.mp (List.append_cancel_right hchars))

/-- The text that serde_json writes for a tree is parsed back. -/
def ReadsBack (J : SerdeJson) (t : Json) : Prop :=
  ∀ text, J.toVec t = .ok text → J.fromSlice text = .ok t

theorem Persists.finite {values : Record} {record : PersistedDeviceState}
    (h : Persists values record) (k : String) (p : PersistedValue) (hp : record.values[k]? = some p) :
    ∀ x ∈ p.number, x.isFinite = true := by
  obtain ⟨id, v, rfl, hv⟩ := h.only k p hp
  have hfrom := h.entry id v hv
  rw [hp, Option.some.injEq] at hfrom
  subst hfrom
  have hvalid := h.valid id v hv
  cases v with
  | number y =>
    intro x hx
    cases hx
    by_contra hx
    simp [Value.validate, hx] at hvalid
  | bool _ | integer _ | string _ =>
    intro x hx
    cases hx

theorem deserialize_ok {J : SerdeJson} {encoded : Bytes} {record : PersistedDeviceState} :
    deserialize J encoded = .ok record ↔
      ∃ t, J.fromSlice encoded = .ok t ∧ readDeviceState t = some record := by
  unfold deserialize
  cases J.fromSlice encoded with
  | error e => simp
  | ok t => cases hr : readDeviceState t <;> simp [hr]

/-- What is encoded is decoded again. -/
theorem decodeState_encodeState {J : SerdeJson} {values : Record} {encoded : Bytes}
    (hJ : ∀ record, persist values = .ok record → ReadsBack J record.toJson)
    (h : encodeState J values = .ok encoded) : decodeState J encoded = .ok values := by
  obtain ⟨record, hrecord, h⟩ := Fallible.bind_ok.mp h
  obtain ⟨text, htext, h⟩ := Fallible.bind_ok.mp h
  obtain ⟨hsize, h⟩ := Fallible.check_ok.mp h
  cases Except.ok.inj h
  have hpersists := persist_ok hrecord
  have hread := hJ record hrecord _ (Fallible.mapError_ok.mp htext)
  have hstate := readDeviceState_toJson hpersists.finite
  unfold decodeState
  refine Fallible.check_ok.mpr ⟨hsize, Fallible.bind_ok.mpr ⟨record, ?_, ?_⟩⟩
  · exact deserialize_ok.mpr ⟨_, hread, hstate⟩
  · exact Fallible.check_ok.mpr ⟨not_not.mpr hpersists.version, restore_of_persists hpersists⟩

/-- What is decoded is what a record of the current format holds. -/
theorem decodeState_ok {J : SerdeJson} {encoded : Bytes} {values : Record}
    (h : decodeState J encoded = .ok values) :
    ∃ t record, J.fromSlice encoded = .ok t ∧ readDeviceState t = some record ∧
      Persists values record := by
  unfold decodeState at h
  obtain ⟨-, h⟩ := Fallible.check_ok.mp h
  obtain ⟨record, hrecord, h⟩ := Fallible.bind_ok.mp h
  obtain ⟨hversion, h⟩ := Fallible.check_ok.mp h
  obtain ⟨t, ht, hr⟩ := deserialize_ok.mp hrecord
  exact ⟨t, record, ht, hr, persists_of_restore (not_not.mp hversion) h⟩

/-- A record that is set is found, and no other device's. -/
theorem get_set {device : DeviceId} {encoded : Bytes} {db db' : Database}
    (h : (bucket .devices).set (stateKey device) encoded db = (.ok (), db')) :
    (bucket .devices).get (stateKey device) db' = .ok encoded ∧ ∀ other, other ≠ device →
      (bucket .devices).get (stateKey other) db' = (bucket .devices).get (stateKey other) db := by
  unfold Bucket.set at h
  cases hkey : (bucket .devices).encoded (stateKey device) with
  | error e =>
    simp only [hkey, Prod.mk.injEq, reduceCtorEq, false_and] at h
  | ok key =>
    simp only [hkey, Prod.mk.injEq, true_and] at h
    subst h
    have htable : ∀ k, (Function.update db (bucket .devices).ns
        ((db (bucket .devices).ns).insert key encoded) (bucket .devices).ns)[k]? =
          if key = k then some encoded else (db (bucket .devices).ns)[k]? := by
      intro k
      rw [Function.update_self, getElem?_table_insert]
    refine ⟨?_, fun other hother => ?_⟩
    · simp only [Bucket.get, hkey, htable, if_true]
    · unfold Bucket.get
      cases hkey' : (bucket .devices).encoded (stateKey other) with
      | error e => rfl
      | ok key' =>
        have hne : key ≠ key' := by
          rintro rfl
          have hsame := encodeKey_inj (encoded_ok hkey).2 (encoded_ok hkey').2
          exact hother (stateKey_inj hsame.2).symm
        simp only [htable, if_neg hne]

/-- The payloads of a persisted value. -/
def PersistedValue.payloads (p : PersistedValue) : List Value :=
  p.bool.toList.map .bool ++ p.integer.toList.map .integer ++ p.number.toList.map .number ++
    p.string.toList.map .string

/-- A failed `save` changes nothing. After another one the device's values are loaded, and those of
    the other devices are as before. What is loaded from any stored bytes are valid values, each
    the only payload of its record, which has the tag of its kind. -/
theorem deviceState_roundTrip {J : SerdeJson} {values : Record}
    (hJ : ∀ record, persist values = .ok record → ReadsBack J record.toJson) (device : DeviceId)
    (db : Database) :
    (∀ redb, (∃ e, save J redb device values db = (.error e, db)) ∨
      ∃ db', save J redb device values db = (.ok (), db') ∧
        load J device db' = .ok (some values) ∧
        ∀ other, other ≠ device → load J other db' = load J other db) ∧
    ∀ encoded, (bucket .devices).get (stateKey device) db = .ok encoded →
      (∃ e, load J device db = .error e) ∨
      ∃ t record loaded, J.fromSlice encoded = .ok t ∧ readDeviceState t = some record ∧
        load J device db = .ok (some loaded) ∧
        ∀ (id : CapabilityId) (v : Value), loaded[id]? = some v →
          validateIdentifier id.asStr = .ok () ∧ v.validate = .ok () ∧
          ∃ p, record.values[id.asStr]? = some p ∧ p.payloads = [v] ∧ p.kind = v.kind.asStr := by
  refine ⟨fun redb => ?_, fun encoded hget => ?_⟩
  · cases hencode : encodeState J values with
    | error e => exact .inl ⟨e, by simp only [save, hencode]⟩
    | ok encoded =>
      cases hset : (bucket .devices).set (stateKey device) encoded db with
      | mk result db' =>
        cases result with
        | error e => exact .inl ⟨.storage e, by simp only [save, hencode, hset]⟩
        | ok _ =>
          cases redb with
          | error message => exact .inl ⟨.database message, by simp only [save, hencode, hset]⟩
          | ok _ =>
            obtain ⟨hsame, hothers⟩ := get_set hset
            refine .inr ⟨db', by simp only [save, hencode, hset], ?_, fun other hother => ?_⟩
            · simp only [load, hsame, decodeState_encodeState hJ hencode, Except.map]
            · simp only [load, hothers other hother]
  · cases hdecode : decodeState J encoded with
    | error e => exact .inl ⟨e, by simp only [load, hget, hdecode, Except.map]⟩
    | ok loaded =>
      obtain ⟨t, record, ht, hrecord, hpersists⟩ := decodeState_ok hdecode
      refine .inr ⟨t, record, loaded, ht, hrecord, ?_, fun id v hv => ?_⟩
      · simp only [load, hget, hdecode, Except.map]
      · refine ⟨id.valid, hpersists.valid id v hv, _, hpersists.entry id v hv, ?_, ?_⟩
        · cases v <;> rfl
        · exact PersistedValue.fromValue_kind v

def onId : CapabilityId := ⟨"on", Core.validateIdentifier_on⟩

def deskId : DeviceId := ⟨"builtin.virtual.desk", by decide⟩

def onValues : Record := (∅ : Record).insert onId (.bool true)

def onTree : Json :=
  .object [("version", .number (.posInt 1)),
    ("values", .object [("on", .object [("kind", .string "bool"), ("bool", .bool true)])])]

def onText : Bytes :=
  utf8 "\x7b\"version\":1,\"values\":\x7b\"on\":\x7b\"kind\":\"bool\",\"bool\":true\x7d\x7d\x7d"

theorem deviceState_roundTrip_on :
    ∃ db, save (Codec.serdeJson onTree onText) (.ok ()) deskId onValues Database.init =
        (.ok (), db) ∧
      load (Codec.serdeJson onTree onText) deskId db = .ok (some onValues) := by
  have hJ : ∀ record, persist onValues = .ok record →
      ReadsBack (Codec.serdeJson onTree onText) record.toJson := by
    intro record hrecord text htext
    cases htext
    have htree : record.toJson = onTree := by
      cases hrecord
      rfl
    rw [htree]
    rfl
  have hsaved : (save (Codec.serdeJson onTree onText) (.ok ()) deskId onValues
      Database.init).1 = .ok () := by decide +kernel
  rcases (deviceState_roundTrip hJ deskId Database.init).1 (.ok ()) with ⟨e, he⟩ | ⟨db, hs, hl, -⟩
  · rw [he] at hsaved
    cases hsaved
  · exact ⟨db, hs, hl⟩

end Oikade.Storage
