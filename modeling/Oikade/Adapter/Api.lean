/-
  The adapter API between the host and a protocol adapter (`oikade-adapter-api/src/v1.rs`) and the
  host's conversions to it (`oikade-adapter-host/src/projection.rs`): values, the sync request made
  from a snapshot of the core, the projection keys that an adapter accepts, event requests.

  The time stamp of an event request is left out: it depends on nothing else and nothing reads it.
-/
import Oikade.Core.Invariant
import Std.Data.ExtTreeSet

namespace Oikade.Adapter

open Oikade.Core (Event Snapshot)

/-! ## Frames -/

structure Value where
  kind : String
  bool : Option Bool
  integer : Option Int64
  number : Option Float64
  string : Option String
  deriving DecidableEq, Repr

structure Capability where
  id : String
  capabilityType : String
  name : String
  kind : String
  permissions : Core.Permissions
  deriving DecidableEq, Repr

structure Device where
  id : String
  name : String
  manufacturer : String
  model : String
  capabilities : List Capability
  deriving DecidableEq, Repr

structure CapabilityState where
  capabilityId : String
  value : Value
  deriving DecidableEq, Repr

structure DeviceState where
  device : Device
  values : List CapabilityState
  deriving DecidableEq, Repr

structure SyncRequest where
  generation : Nat
  revision : Nat
  devices : List DeviceState
  deriving DecidableEq, Repr

/-- `Projection` of the API: a device and a capability that the adapter projects. -/
structure Projection where
  deviceId : String
  capabilityId : String
  deriving DecidableEq, Repr

structure Diagnostic where
  severity : String
  code : String
  message : String
  deviceId : Option String
  capabilityId : Option String
  deriving DecidableEq, Repr

structure EventRequest where
  deviceId : String
  capabilityId : String
  value : Value
  revision : Nat
  deriving DecidableEq, Repr

/-! ## Conversions -/

def valueToApi (value : Core.Value) : Value :=
  match value with
  | .bool b => ⟨value.kind.asStr, some b, none, none, none⟩
  | .integer i => ⟨value.kind.asStr, none, some i, none, none⟩
  | .number n => ⟨value.kind.asStr, none, none, some n, none⟩
  | .string s => ⟨value.kind.asStr, none, none, none, some s⟩

/-- Why there is no sync request. -/
inductive SyncRequestError where
  /-- "core runtime is stopped" -/
  | stopped
  /-- "snapshot device .. is missing capability .. state" -/
  | missing (device capability : String)
  deriving DecidableEq, Repr

def capabilityToApi (c : Core.Capability) : Capability :=
  ⟨c.id.asStr, c.capabilityType.asStr, c.name, c.kind.asStr, c.permissions⟩

def deviceToApi (d : Core.Device) : Device :=
  ⟨d.id.asStr, d.name, d.manufacturer, d.model, d.capabilities.map capabilityToApi⟩

/-- The value of one capability of a snapshot. -/
def capabilityState (state : Core.DeviceState) (c : Core.Capability) :
    Except SyncRequestError CapabilityState :=
  match state.values[c.id]? with
  | some value => .ok ⟨c.id.asStr, valueToApi value⟩
  | none => .error (.missing state.device.id.asStr c.id.asStr)

def deviceState (state : Core.DeviceState) : Except SyncRequestError DeviceState := do
  let values ← state.device.capabilities.mapM (capabilityState state)
  pure ⟨deviceToApi state.device, values⟩

def syncRequest (snapshot : Snapshot) (generation : Nat) : Except SyncRequestError SyncRequest :=
  if snapshot.started then do
    let devices ← snapshot.devices.mapM deviceState
    pure ⟨generation, snapshot.revision, devices⟩
  else .error .stopped

theorem syncRequest_ok {snapshot : Snapshot} {generation : Nat} {request : SyncRequest} :
    syncRequest snapshot generation = .ok request ↔ snapshot.started = true ∧
      ∃ devices, snapshot.devices.mapM deviceState = .ok devices ∧
        request = ⟨generation, snapshot.revision, devices⟩ := by
  unfold syncRequest
  cases snapshot.started with
  | false => simp
  | true =>
    simp only [if_true, Fallible.bind_ok, true_and]
    refine exists_congr fun devices => and_congr_right fun _ => ?_
    exact ⟨fun h => (Except.ok.inj h).symm, fun h => congrArg Except.ok h.symm⟩

/-- A snapshot of a started runtime with a value for every capability makes a request. -/
theorem syncRequest_of_complete {snapshot : Snapshot} (hs : snapshot.started = true)
    (hall : ∀ state ∈ snapshot.devices, ∀ c ∈ state.device.capabilities,
      ∃ v, state.values[c.id]? = some v) (generation : Nat) :
    ∃ request, syncRequest snapshot generation = .ok request := by
  have hdevice : ∀ state ∈ snapshot.devices, ∃ w, deviceState state = .ok w := by
    intro state hstate
    have hvalue : ∀ c ∈ state.device.capabilities, ∃ entry, capabilityState state c = .ok entry := by
      intro c hc
      obtain ⟨v, hv⟩ := hall state hstate c hc
      exact ⟨_, by rw [capabilityState, hv]⟩
    obtain ⟨values, hvalues⟩ := Fallible.mapM_of_forall hvalue
    exact ⟨_, Fallible.bind_ok.mpr ⟨values, hvalues, rfl⟩⟩
  obtain ⟨devices, hdevices⟩ := Fallible.mapM_of_forall hdevice
  exact ⟨_, syncRequest_ok.mpr ⟨hs, devices, hdevices, rfl⟩⟩

section Sent

variable {s : Core.DeviceState} {w : DeviceState}

theorem deviceState_device (h : deviceState s = .ok w) : w.device = deviceToApi s.device := by
  obtain ⟨values, -, h⟩ := Fallible.bind_ok.mp h
  cases Except.ok.inj h
  rfl

theorem capabilityState_ok {c : Core.Capability} {entry : CapabilityState}
    (h : capabilityState s c = .ok entry) : entry.capabilityId = c.id.asStr ∧
      ∃ v, s.values[c.id]? = some v ∧ entry.value = valueToApi v := by
  unfold capabilityState at h
  split at h
  · rename_i v hv
    cases Except.ok.inj h
    exact ⟨rfl, v, hv, rfl⟩
  · simp at h

/-- There is an entry for a capability, and every entry for it has its value. -/
theorem deviceState_entries (h : deviceState s = .ok w) {c : Core.Capability}
    (hc : c ∈ s.device.capabilities) : ∃ v, s.values[c.id]? = some v ∧
      (∃ entry ∈ w.values, entry.capabilityId = c.id.asStr) ∧
      ∀ entry ∈ w.values, entry.capabilityId = c.id.asStr → entry.value = valueToApi v := by
  obtain ⟨values, hvalues, h⟩ := Fallible.bind_ok.mp h
  cases Except.ok.inj h
  obtain ⟨entry, hm, hentry⟩ := Fallible.mapM_mem_left hvalues hc
  obtain ⟨hid, v, hv, -⟩ := capabilityState_ok hentry
  refine ⟨v, hv, ⟨entry, hm, hid⟩, fun entry' hm' hid' => ?_⟩
  obtain ⟨c', -, hc'⟩ := Fallible.mapM_mem_right hvalues hm'
  obtain ⟨hid'', v', hv', he⟩ := capabilityState_ok hc'
  have hcc : c'.id = c.id := Core.Identifier.ext' (hid''.symm.trans hid')
  rw [hcc, hv] at hv'
  rw [he, Option.some.inj hv']

/-- A search among entries that agree. -/
theorem find_map {α β : Type} {l : List α} {p : α → Bool} {f : α → β} {b : β}
    (hex : ∃ a ∈ l, p a = true) (hall : ∀ a ∈ l, p a = true → f a = b) :
    (l.find? p).map f = some b := by
  obtain ⟨a, ha, hp⟩ := hex
  cases hfind : l.find? p with
  | none => exact absurd hp (List.find?_eq_none.mp hfind a ha)
  | some found =>
    rw [Option.map_some, hall found (List.mem_of_find?_eq_some hfind) (List.find?_some hfind)]

end Sent

def eventRequest (event : Event) : EventRequest :=
  ⟨event.deviceId.asStr, event.capabilityId.asStr, valueToApi event.value, event.revision⟩

/-! ## Projection keys -/

abbrev ProjectionKeys := Std.ExtTreeMap String (Std.ExtTreeSet String)

/-- The capabilities of every device of a request. -/
def projectionKeys (devices : List DeviceState) : ProjectionKeys :=
  devices.foldl (fun keys state =>
    keys.insert state.device.id
      (state.device.capabilities.foldl (fun ids c => ids.insert c.id) ∅)) ∅

/-- Why the projections of an adapter are refused; the number is that of the projection. -/
inductive ProjectionError where
  /-- "projection .. references unknown device .." -/
  | unknownDevice (index : Nat) (device : String)
  /-- "projection .. references unknown capability ../.." -/
  | unknownCapability (index : Nat) (device capability : String)
  /-- "projection .. duplicates capability ../.." -/
  | duplicate (index : Nat) (device capability : String)
  deriving DecidableEq, Repr

def ProjectionKeys.has (keys : ProjectionKeys) (device capability : String) : Bool :=
  (keys[device]?).any fun capabilities => capability ∈ capabilities

/-- The loop of `accepted_projection_keys`. -/
def acceptProjections (available : ProjectionKeys) :
    Nat → ProjectionKeys → List Projection → Except ProjectionError ProjectionKeys
  | _, accepted, [] => .ok accepted
  | index, accepted, p :: ps =>
    match available[p.deviceId]? with
    | none => .error (.unknownDevice index p.deviceId)
    | some capabilities =>
      if p.capabilityId ∉ capabilities then
        .error (.unknownCapability index p.deviceId p.capabilityId)
      else if accepted.has p.deviceId p.capabilityId then
        .error (.duplicate index p.deviceId p.capabilityId)
      else
        acceptProjections available (index + 1)
          (accepted.insert p.deviceId
            (((accepted[p.deviceId]?).getD ∅).insert p.capabilityId)) ps

/-- An adapter that names no projections accepts all. -/
def acceptedProjectionKeys (projections : Option (List Projection)) (available : ProjectionKeys) :
    Except ProjectionError ProjectionKeys :=
  match projections with
  | none => .ok available
  | some projections => acceptProjections available 0 ∅ projections

def contains (keys : ProjectionKeys) (event : Event) : Bool :=
  keys.has event.deviceId.asStr event.capabilityId.asStr

/-! ## What the keys hold -/

theorem has_insert (keys : ProjectionKeys) (d : String) (ids : Std.ExtTreeSet String)
    (device capability : String) : ProjectionKeys.has (keys.insert d ids) device capability =
      if d = device then decide (capability ∈ ids) else keys.has device capability := by
  unfold ProjectionKeys.has
  rw [Core.getElem?_insert]
  split <;> simp

theorem mem_capabilitySet (cs : List Capability) (ids : Std.ExtTreeSet String) (id : String) :
    id ∈ cs.foldl (fun ids c => ids.insert c.id) ids ↔ id ∈ ids ∨ ∃ c ∈ cs, c.id = id := by
  induction cs generalizing ids with
  | nil => simp
  | cons c cs ih =>
    rw [List.foldl_cons, ih, Std.ExtTreeSet.mem_insert, Std.compare_eq_iff_eq]
    simp only [List.mem_cons, exists_eq_or_imp, or_assoc]
    grind

theorem projectionKeys_foldl (devices : List DeviceState) (keys : ProjectionKeys)
    (hnd : (devices.map fun state => state.device.id).Nodup) (device capability : String) :
    ProjectionKeys.has (devices.foldl (fun keys state => keys.insert state.device.id
      (state.device.capabilities.foldl (fun ids c => ids.insert c.id) ∅)) keys) device capability =
      true ↔
      (keys.has device capability = true ∧ device ∉ devices.map fun state => state.device.id) ∨
        ∃ state ∈ devices, state.device.id = device ∧
          ∃ c ∈ state.device.capabilities, c.id = capability := by
  induction devices generalizing keys with
  | nil => simp
  | cons state devices ih =>
    rw [List.map_cons, List.nodup_cons] at hnd
    rw [List.foldl_cons, ih _ hnd.2, has_insert, List.map_cons, List.mem_cons]
    have hset : ∀ id, id ∈ state.device.capabilities.foldl (fun ids c => ids.insert c.id)
        (∅ : Std.ExtTreeSet String) ↔ ∃ c ∈ state.device.capabilities, c.id = id := by
      intro id
      rw [mem_capabilitySet]
      simp
    have hhead : ∀ state' ∈ devices, state'.device.id ≠ state.device.id := fun state' hm he =>
      hnd.1 (List.mem_map.mpr ⟨state', hm, he⟩)
    by_cases hd : state.device.id = device
    · subst hd
      simp only [if_true, decide_eq_true_eq, hset, List.mem_cons, exists_eq_or_imp, true_and,
        true_or, not_true_eq_false, and_false, false_or]
      constructor
      · rintro (⟨h, -⟩ | ⟨state', hm, he, -⟩)
        · exact .inl h
        · exact absurd he (hhead state' hm)
      · rintro (h | ⟨state', hm, he, -⟩)
        · exact .inl ⟨h, hnd.1⟩
        · exact absurd he (hhead state' hm)
    · have hd' : ¬device = state.device.id := fun h => hd h.symm
      simp only [hd, hd', if_false, List.mem_cons, exists_eq_or_imp, false_and, false_or]

/-- The keys of a request with distinct devices are its devices with their capabilities. -/
theorem projectionKeys_has {devices : List DeviceState}
    (hnd : (devices.map fun state => state.device.id).Nodup) {device capability : String} :
    (projectionKeys devices).has device capability = true ↔
      ∃ state ∈ devices, state.device.id = device ∧
        ∃ c ∈ state.device.capabilities, c.id = capability := by
  rw [projectionKeys, projectionKeys_foldl devices ∅ hnd]
  simp [ProjectionKeys.has]

theorem has_accept (accepted : ProjectionKeys) (p : Projection) (device capability : String) :
    ProjectionKeys.has (accepted.insert p.deviceId
      (((accepted[p.deviceId]?).getD ∅).insert p.capabilityId)) device capability = true ↔
      accepted.has device capability = true ∨
        (p.deviceId = device ∧ p.capabilityId = capability) := by
  rw [has_insert]
  by_cases hd : p.deviceId = device
  · subst hd
    rw [if_pos rfl, decide_eq_true_eq, Std.ExtTreeSet.mem_insert, Std.compare_eq_iff_eq]
    cases hk : accepted[p.deviceId]? with
    | none => simp [ProjectionKeys.has, hk]
    | some ids => simp [ProjectionKeys.has, hk, or_comm]
  · simp [hd]

/-- The projections are accepted exactly when they are available and each is named once. -/
theorem acceptProjections_ok {available accepted : ProjectionKeys} {n : Nat}
    {ps : List Projection} :
    (∃ keys, acceptProjections available n accepted ps = .ok keys) ↔
      (∀ p ∈ ps, available.has p.deviceId p.capabilityId = true) ∧ ps.Nodup ∧
        ∀ p ∈ ps, accepted.has p.deviceId p.capabilityId = false := by
  induction ps generalizing n accepted with
  | nil => simp [acceptProjections]
  | cons p ps ih =>
    have hhas : available.has p.deviceId p.capabilityId = true ↔
        ∃ ids, available[p.deviceId]? = some ids ∧ p.capabilityId ∈ ids := by
      simp [ProjectionKeys.has, Option.any_eq_true]
    unfold acceptProjections
    cases hav : available[p.deviceId]? with
    | none => simp [ProjectionKeys.has, hav]
    | some ids =>
      have hiff : available.has p.deviceId p.capabilityId = true ↔ p.capabilityId ∈ ids := by
        rw [hhas]
        simp [hav]
      simp only [List.forall_mem_cons, hiff, List.nodup_cons]
      by_cases hm : p.capabilityId ∈ ids
      · cases hacc : accepted.has p.deviceId p.capabilityId with
        | true => simp [hm]
        | false =>
          simp only [hm, not_true_eq_false, if_false, Bool.false_eq_true, ih, true_and]
          have hnot : ∀ q : Projection, ProjectionKeys.has (accepted.insert p.deviceId
              (((accepted[p.deviceId]?).getD ∅).insert p.capabilityId)) q.deviceId
              q.capabilityId = false ↔
              accepted.has q.deviceId q.capabilityId = false ∧ p ≠ q := by
            intro q
            rw [← Bool.not_eq_true, has_accept, not_or, Bool.not_eq_true]
            refine and_congr_right fun _ => not_congr ?_
            cases p
            cases q
            simp
          simp only [hnot]
          grind
      · simp [hm]

/-- What has been accepted. -/
theorem acceptProjections_has {available accepted keys : ProjectionKeys} {n : Nat}
    {ps : List Projection} (h : acceptProjections available n accepted ps = .ok keys)
    (device capability : String) : keys.has device capability = true ↔
      accepted.has device capability = true ∨ ⟨device, capability⟩ ∈ ps := by
  induction ps generalizing n accepted with
  | nil =>
    cases Except.ok.inj h
    simp
  | cons p ps ih =>
    unfold acceptProjections at h
    split at h
    · simp at h
    · split at h
      · simp at h
      · split at h
        · simp at h
        · rw [ih h, has_accept, List.mem_cons, or_assoc]
          refine or_congr_right (or_congr_left ?_)
          cases p
          simp [eq_comm]

/-- An event is forwarded exactly when its capability is one that the adapter named. -/
theorem contains_iff {available keys : ProjectionKeys} {ps : List Projection}
    (h : acceptedProjectionKeys (some ps) available = .ok keys) (event : Event) :
    contains keys event = true ↔ ⟨event.deviceId.asStr, event.capabilityId.asStr⟩ ∈ ps := by
  rw [contains, acceptProjections_has h]
  simp [ProjectionKeys.has]

/-- `accepted_projection_keys` for the projections that an adapter names. -/
theorem acceptedProjectionKeys_ok {available : ProjectionKeys} {ps : List Projection} :
    (∃ keys, acceptedProjectionKeys (some ps) available = .ok keys) ↔
      (∀ p ∈ ps, available.has p.deviceId p.capabilityId = true) ∧ ps.Nodup := by
  rw [acceptedProjectionKeys, acceptProjections_ok]
  simp [ProjectionKeys.has]

end Oikade.Adapter
