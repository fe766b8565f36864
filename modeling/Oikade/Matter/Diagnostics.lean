/-
  The diagnostics of `build`: what the host's `validate_diagnostics` makes of them, and which
  capabilities they name.

  Every diagnostic that `build` pushes is well worded and names the device and one of its
  capabilities (`select_diagnostics`), so the host refuses a list of them for its length only. A
  validated device adds one for each of its `diagnosed` capabilities, without a bound, and the host
  takes `maxDiagnostics`: the diagnostics are accepted exactly when no more capabilities are
  diagnosed (`diagnostics_accepted_iff`).

  A level is skipped in its own turn when the device has one light, which is to deal with it. The
  light does not when it is not projected itself, and with several levels its diagnostic names the
  light: such a device is `silent`, and every capability is mapped or diagnosed exactly when no
  device is (`mapped_or_diagnosed_iff`).
-/
import Oikade.Adapter.Validate
import Oikade.Matter.Refs

namespace Oikade.Matter

open Adapter (Capability Device DeviceState Diagnostic isIdentifier maxDiagnostics
  maxDiagnosticMessage validateDiagnostics)

/-! ## What `build` pushes -/

def diagnosticsOf (state : DeviceState) : List Diagnostic :=
  match deviceDiagnostic state.device with
  | some diagnostic => [diagnostic]
  | none => state.device.capabilities.flatMap fun c => (select state c).1

theorem pushCapability_diagnostics {state : DeviceState} {c : Capability} {b b' : Build}
    (h : pushCapability state b c = .ok b') :
    b'.diagnostics = b.diagnostics ++ (select state c).1 := by
  unfold pushCapability at h
  split at h
  · rename_i hsel
    cases Except.ok.inj h
    rw [hsel]
  · rename_i hsel
    split at h
    · simp at h
    · cases Except.ok.inj h
      rw [hsel]

theorem pushDevice_diagnostics {state : DeviceState} {b b' : Build}
    (h : pushDevice b state = .ok b') :
    b'.diagnostics = b.diagnostics ++ diagnosticsOf state := by
  cases hd : deviceDiagnostic state.device with
  | some d =>
    simp only [pushDevice, hd] at h
    cases Except.ok.inj h
    simp only [diagnosticsOf, hd]
  | none =>
    simp only [pushDevice, hd] at h
    simp only [diagnosticsOf, hd]
    exact Fallible.foldlM_ok
      (P := fun done x => x.diagnostics = b.diagnostics ++ done.flatMap fun c => (select state c).1)
      (fun done x c x' hdone hstep => by
        rw [pushCapability_diagnostics hstep, hdone]
        simp)
      h (by simp)

theorem build_diagnostics {builder builder' : ProjectionBuilder} {saved : Except String Unit}
    {devices : List DeviceState} {built : BuiltProjection}
    (h : builder.build saved devices = (.ok built, builder')) :
    built.diagnostics = devices.flatMap diagnosticsOf := by
  unfold ProjectionBuilder.build at h
  split at h
  · simp at h
  · rename_i b hb
    have hall := Fallible.foldlM_ok
      (P := fun done x => x.diagnostics = done.flatMap diagnosticsOf)
      (fun done x state x' hdone hstep => by
        rw [pushDevice_diagnostics hstep, hdone]
        simp)
      hb rfl
    split at h
    · simp at h
    · split at h
      · simp at h
      · cases h
        exact hall

/-! ## One capability -/

/-- The texts of a diagnostic that the host accepts. -/
def wellWorded (severity code message : String) : Bool :=
  (severity = "info" || severity = "warning" || severity = "error") && isIdentifier code &&
    !message.isEmpty && message = Text.trim message &&
    message.utf8ByteSize ≤ maxDiagnosticMessage

/-- The light deals with the level of its device. -/
def composes (state : DeviceState) (c : Capability) : Bool :=
  c.capabilityType = lightOn && c.kind = "bool" && canActuate c &&
    ((valueOf state c.id).bind wireBool).isSome

/-- The severities, codes and messages of the diagnostics about a capability. -/
def texts : List (String × String × String) :=
  [("error", "invalid_capability_kind", "composed light level must be numeric"),
    ("warning", "unsupported_permissions",
      "light level permissions cannot be represented safely"),
    ("error", "invalid_light_level", "light level must be a number from 0 through 100"),
    ("warning", "ambiguous_light_level", "light on/off has multiple level capabilities"),
    ("error", "invalid_on_off", "on/off state must be boolean"),
    ("error", "invalid_temperature", "temperature must be between -273.15 and 327.66 °C"),
    ("error", "invalid_relative_humidity", "relative humidity must be between 0 and 100 percent"),
    ("error", "invalid_sensor_state", "contact state must be boolean"),
    ("warning", "assumed_occupancy_modality", "occupancy is projected as a PIR sensor"),
    ("error", "invalid_sensor_state", "occupancy state must be boolean"),
    ("warning", "missing_composed_light_on_off",
      "light level requires one light on/off capability"),
    ("warning", "ambiguous_composed_light", "light level has multiple light on/off capabilities"),
    ("info", "unsupported_capability", "capability has no Matter mapping"),
    ("error", "invalid_capability_kind", "capability kind does not match its Matter mapping"),
    ("warning", "unsupported_permissions", "capability permissions cannot be represented safely"),
    ("error", "missing_capability_state", "capability has no current value")]

theorem texts_trimmed : ∀ t ∈ texts, Text.trim t.2.2 = t.2.2 := by
  simp only [texts, List.forall_mem_cons]
  and_intros
  all_goals first
    | exact Text.trim_of_ofList rfl (by decide)
    | simp

theorem texts_wellWorded : ∀ t ∈ texts, wellWorded t.1 t.2.1 t.2.2 = true := by
  intro t ht
  have hall : texts.all (fun t => (t.1 = "info" || t.1 = "warning" || t.1 = "error") &&
      isIdentifier t.2.1 && !t.2.2.isEmpty && t.2.2.utf8ByteSize ≤ maxDiagnosticMessage) = true := by
    decide +kernel
  have ht' := List.all_eq_true.mp hall t ht
  simp only [Bool.and_eq_true] at ht'
  obtain ⟨⟨⟨hseverity, hcode⟩, hempty⟩, hsize⟩ := ht'
  simp only [wellWorded, Bool.and_eq_true]
  exact ⟨⟨⟨⟨hseverity, hcode⟩, hempty⟩, decide_eq_true (texts_trimmed t ht).symm⟩, hsize⟩

/-- A diagnostic about a device and one of its capabilities. -/
def Names (device : Device) (cap : Capability) (d : Diagnostic) : Prop :=
  ∃ severity code message, (severity, code, message) ∈ texts ∧
    d = diagnostic severity code message device cap

theorem composedLevel_diagnostics {state : DeviceState} {c : Capability} {d : Diagnostic}
    (h : d ∈ (composedLevel state c).1) :
    Names state.device c d ∨
      ∃ cap, ofType state.device lightLevel = [cap] ∧ Names state.device cap d := by
  unfold composedLevel at h
  split at h
  · simp at h
  · rename_i cap hcap
    refine .inr ⟨cap, hcap, ?_⟩
    split at h
    · rw [List.mem_singleton.mp h]
      exact ⟨_, _, _, by simp [texts], rfl⟩
    · split at h
      · rw [List.mem_singleton.mp h]
        exact ⟨_, _, _, by simp [texts], rfl⟩
      · split at h
        · simp at h
        · rw [List.mem_singleton.mp h]
          exact ⟨_, _, _, by simp [texts], rfl⟩
  · rw [List.mem_singleton.mp h]
    exact .inl ⟨_, _, _, by simp [texts], rfl⟩

theorem selectValue_diagnostics {state : DeviceState} {c : Capability} {mapped : Mapped}
    {value : Adapter.Value} {d : Diagnostic} (h : d ∈ (selectValue state c mapped value).1) :
    Names state.device c d ∨ (mapped = .lightOn ∧ (wireBool value).isSome = true ∧
      ∃ cap, ofType state.device lightLevel = [cap] ∧ Names state.device cap d) := by
  unfold selectValue at h
  split at h
  case h_2 =>
    split at h
    · rename_i on hon
      have hd : d ∈ (composedLevel state c).1 := by
        split at h <;> rename_i hc <;> rw [hc] <;> exact h
      rcases composedLevel_diagnostics hd with hd | hd
      · exact .inl hd
      · exact .inr ⟨rfl, by rw [hon]; rfl, hd⟩
    · rw [List.mem_singleton.mp h]
      exact .inl ⟨_, _, _, by simp [texts], rfl⟩
  all_goals
    left
    split at h
    all_goals first
      | (rw [List.mem_singleton.mp h]; exact ⟨_, _, _, by simp [texts], rfl⟩)
      | simp at h

/-- A diagnostic names the capability it is pushed for, or the level that a light has dealt
    with. -/
theorem select_diagnostics {state : DeviceState} {c : Capability} {d : Diagnostic}
    (h : d ∈ (select state c).1) : Names state.device c d ∨ (composes state c = true ∧
      ∃ cap, ofType state.device lightLevel = [cap] ∧ Names state.device cap d) := by
  unfold select at h
  split at h
  · left
    split at h
    all_goals first
      | (rw [List.mem_singleton.mp h]; exact ⟨_, _, _, by simp [texts], rfl⟩)
      | simp at h
  · split at h
    · rw [List.mem_singleton.mp h]
      exact .inl ⟨_, _, _, by simp [texts], rfl⟩
    · rename_i mapped hm
      split at h
      · rw [List.mem_singleton.mp h]
        exact .inl ⟨_, _, _, by simp [texts], rfl⟩
      · rename_i hkind
        split at h
        · rw [List.mem_singleton.mp h]
          exact .inl ⟨_, _, _, by simp [texts], rfl⟩
        · rename_i hperm
          split at h
          · rw [List.mem_singleton.mp h]
            exact .inl ⟨_, _, _, by simp [texts], rfl⟩
          · rename_i value hv
            rcases selectValue_diagnostics h with h | ⟨rfl, hb, h⟩
            · exact .inl h
            · refine .inr ⟨?_, h⟩
              have ht : c.capabilityType = lightOn := Mapped.ofType_some hm
              have hact : canActuate c = true := by simpa [Mapped.actuator] using hperm
              have hk : c.kind = "bool" := by simpa [Mapped.expectedKind] using hkind
              simp [composes, ht, hk, hact, hv, hb]

/-! ## Accepted diagnostics -/

theorem nonEmpty_of_identifier {value : String} (h : Core.validateIdentifier value = .ok ()) :
    nonEmpty value = some value := by
  have hne : value.isEmpty = false :=
    (⟨value, h⟩ : Core.Identifier .device).checks.1
  simp [nonEmpty, hne]

/-- A well-worded diagnostic about valid identifiers passes the host's checks. -/
theorem valid_of_names {device : Device} {cap : Capability} {d : Diagnostic}
    (hd : Core.validateIdentifier device.id = .ok ())
    (hc : Core.validateIdentifier cap.id = .ok ()) (h : Names device cap d) : d.valid = true := by
  obtain ⟨severity, code, message, ht, rfl⟩ := h
  have hw := texts_wellWorded _ ht
  simp only [wellWorded, Bool.and_eq_true] at hw
  obtain ⟨⟨⟨⟨hsev, hcode⟩, hne⟩, htrim⟩, hlen⟩ := hw
  have hid : isIdentifier device.id = true := by simp [isIdentifier, hd]
  have hcid : isIdentifier cap.id = true := by simp [isIdentifier, hc]
  simp [Adapter.Diagnostic.valid, diagnostic, nonEmpty_of_identifier hd, nonEmpty_of_identifier hc,
    hid, hcid, hsev, hcode, hne, htrim, hlen]

/-- A value that cannot be shown, of a capability that is projected with it. -/
def Mapped.hides (m : Mapped) (w : DeviceState) (c : Capability) : Bool :=
  match m with
  | .temperature => !((valueOf w c.id).bind wireNumber).any inTemperature
  | .humidity => !((valueOf w c.id).bind wireNumber).any inPercent
  | _ => false

/-- The level of the device is there and cannot join a light. -/
def levelRefused (w : DeviceState) : Bool :=
  match ofType w.device lightLevel with
  | [] => false
  | [cap] => !(canActuate cap && ((valueOf w cap.id).bind wireNumber).any inPercent)
  | _ => true

/-- The capabilities that `build` has something to say about: a level without exactly one light, a
    type without a mapping, permissions that do not fit the mapping, a light whose device has
    several levels or one that cannot join it, a value out of range, and every occupancy sensor. -/
def diagnosed (w : DeviceState) (c : Capability) : Bool :=
  if c.capabilityType = lightLevel then (ofType w.device lightOn).length ≠ 1
  else
    match Mapped.ofType c.capabilityType with
    | none => true
    | some m =>
      (if m.actuator then !canActuate c else !canObserve c) || m.hides w c || m = .occupancy ||
        (m = .lightOn && levelRefused w)

theorem composedLevel_length {w : DeviceState} (hw : Validated w) (c : Capability) :
    (composedLevel w c).1.length = if levelRefused w then 1 else 0 := by
  unfold composedLevel levelRefused
  cases hlevels : ofType w.device lightLevel with
  | nil => simp
  | cons cap rest =>
    cases rest with
    | cons => simp
    | nil =>
      have hkind : cap.kind = "number" :=
        hw.levelKind cap (mem_ofType hlevels).1 (mem_ofType hlevels).2
      cases hact : canActuate cap with
      | false => simp [hkind, hact]
      | true =>
        cases hv : (valueOf w cap.id).bind wireNumber with
        | none => simp [hkind, hact, hv]
        | some v => cases hin : inPercent v <;> simp [hkind, hact, hv, hin, Option.filter_some]

/-- The diagnostics for a value of the right kind. -/
theorem selectValue_length {w : DeviceState} (hw : Validated w) {c : Capability} {m : Mapped}
    {v : Core.Value} (hv : valueOf w c.id = some (Adapter.valueToApi v))
    (hk : v.kind.asStr = m.expectedKind) :
    (selectValue w c m (Adapter.valueToApi v)).1.length =
      if m.hides w c || m = .occupancy || (m = .lightOn && levelRefused w) then 1 else 0 := by
  have hbool : m.expectedKind = "bool" → ∃ b, wireBool (Adapter.valueToApi v) = some b := by
    intro hb
    rw [hb] at hk
    cases v with
    | bool b => exact ⟨b, by simp [wireBool, Adapter.valueToApi, Core.Value.kind, Core.ValueKind.asStr]⟩
    | _ => simp [Core.Value.kind, Core.ValueKind.asStr] at hk
  cases m with
  | lightOn =>
    obtain ⟨b, hb⟩ := hbool rfl
    have hlen := composedLevel_length hw c
    simp only [selectValue, hb]
    split <;> rename_i hc <;> rw [hc] at hlen <;> simpa [Mapped.hides] using hlen
  | temperature =>
    simp only [selectValue, Mapped.hides, hv, Option.bind_some]
    cases wireNumber (Adapter.valueToApi v) with
    | none => simp
    | some x => cases hin : inTemperature x <;> simp [Option.filter_some, hin]
  | humidity =>
    simp only [selectValue, Mapped.hides, hv, Option.bind_some]
    cases wireNumber (Adapter.valueToApi v) with
    | none => simp
    | some x => cases hin : inPercent x <;> simp [Option.filter_some, hin]
  | switchOn | outletOn | contactOpen | occupancy =>
    obtain ⟨b, hb⟩ := hbool rfl
    simp [selectValue, hb, Mapped.hides]

theorem select_length {w : DeviceState} (hw : Validated w) (hp : Proper w) {c : Capability}
    (hc : c ∈ w.device.capabilities) :
    (select w c).1.length = if diagnosed w c then 1 else 0 := by
  unfold select diagnosed
  by_cases hl : c.capabilityType = lightLevel
  · rw [if_pos hl, if_pos hl]
    rcases ofType w.device lightOn with _ | ⟨a, _ | ⟨b, rest⟩⟩ <;> simp
  · rw [if_neg hl, if_neg hl]
    cases hm : Mapped.ofType c.capabilityType with
    | none => simp
    | some m =>
      have hkind := hw.kind c hc m hm
      obtain ⟨v, hv, hvk⟩ := hp.value c hc
      have hval := selectValue_length hw hv (hvk.trans hkind)
      have hperm : (m.actuator && !canActuate c || !m.actuator && !canObserve c) =
          if m.actuator then !canActuate c else !canObserve c := by
        cases m.actuator <;> simp
      simp only [hkind, ne_eq, not_true_eq_false, if_false, hperm, hv, Bool.or_assoc]
      cases hp : (if m.actuator then !canActuate c else !canObserve c) with
      | true => simp
      | false => simpa [Bool.or_assoc] using hval

/-- The number of diagnostics of a request. -/
theorem diagnostics_length {devices : List DeviceState} (hv : ∀ w ∈ devices, Validated w)
    (hp : ∀ w ∈ devices, Proper w) : (devices.flatMap diagnosticsOf).length =
      (devices.map fun w => w.device.capabilities.countP (diagnosed w)).sum := by
  have hcount : ∀ (w : DeviceState) (cs : List Capability),
      (∀ c ∈ cs, (select w c).1.length = if diagnosed w c then 1 else 0) →
      (cs.flatMap fun c => (select w c).1).length = cs.countP (diagnosed w) := by
    intro w cs h
    induction cs with
    | nil => rfl
    | cons c cs ih =>
      rw [List.forall_mem_cons] at h
      rw [List.flatMap_cons, List.length_append, h.1, ih h.2, List.countP_cons, Nat.add_comm]
  rw [List.length_flatMap]
  refine congrArg List.sum (List.map_congr_left fun w hw => ?_)
  simp only [diagnosticsOf, (hv w hw).complete]
  exact hcount w _ fun c hc => select_length (hv w hw) (hp w hw) hc

theorem diagnostics_valid {devices : List DeviceState} (hv : ∀ w ∈ devices, Validated w) :
    ∀ d ∈ devices.flatMap diagnosticsOf, d.valid = true := by
  intro d hd
  obtain ⟨w, hw, hd⟩ := List.mem_flatMap.mp hd
  have hw := hv w hw
  simp only [diagnosticsOf, hw.complete] at hd
  obtain ⟨c, hc, hd⟩ := List.mem_flatMap.mp hd
  rcases select_diagnostics hd with hd | ⟨-, cap, hcap, hd⟩
  · exact valid_of_names hw.identifiers.1 (hw.identifiers.2 c hc) hd
  · exact valid_of_names hw.identifiers.1 (hw.identifiers.2 cap (mem_ofType hcap).1) hd

theorem validateDiagnostics_ok {ds : List Diagnostic} (h : ∀ d ∈ ds, d.valid = true) :
    (∃ ds', validateDiagnostics ds = .ok ds') ↔ ds.length ≤ maxDiagnostics := by
  unfold validateDiagnostics
  have hall : ds.all Adapter.Diagnostic.valid = true := List.all_eq_true.mpr h
  by_cases hlen : maxDiagnostics < ds.length
  · simp [hlen, Nat.not_le_of_lt hlen]
  · simp [hlen, hall, Nat.le_of_not_lt hlen]

/-- The host accepts the diagnostics of a successful `build` exactly when it has no more than
    `maxDiagnostics` capabilities to diagnose. -/
theorem diagnostics_accepted_iff {states : List Core.DeviceState} {devices : List DeviceState}
    (hs : Sendable states) (hreq : states.mapM Adapter.deviceState = .ok devices)
    {builder builder' : ProjectionBuilder} {saved : Except String Unit} {built : BuiltProjection}
    (h : builder.build saved devices = (.ok built, builder')) :
    (∃ ds, validateDiagnostics built.diagnostics = .ok ds) ↔
      (devices.map fun w => w.device.capabilities.countP (diagnosed w)).sum ≤ maxDiagnostics := by
  obtain ⟨-, hp⟩ := proper_of_sendable hs hreq
  have hv := validated_of_sendable hs hreq
  rw [build_diagnostics h, validateDiagnostics_ok (diagnostics_valid hv),
    diagnostics_length hv hp]

theorem diagnostics_accepted_hall : ∃ devices built builder',
    [hall].mapM Adapter.deviceState = .ok devices ∧
      (⟨.default⟩ : ProjectionBuilder).build (.ok ()) devices = (.ok built, builder') ∧
        ∃ ds, validateDiagnostics built.diagnostics = .ok ds := by
  have hs : Sendable [hall] := ⟨by decide, by decide, by decide⟩
  refine ⟨_, _, _, rfl, rfl, ?_⟩
  exact (@diagnostics_accepted_iff _ _ hs rfl ⟨.default⟩ _ (.ok ()) _ rfl).mpr (by decide)

theorem numbered_valid : ∀ n : Fin 17, Core.validateIdentifier ("x" ++ toString n.val) = .ok () := by
  decide +kernel

def numbered (of : Core.IdentifierOf) (n : Fin 17) : Core.Identifier of :=
  ⟨"x" ++ toString n.val, numbered_valid n⟩

/-- A capability of a type that no adapter knows. -/
def gauge (n : Fin 17) : Core.Capability :=
  ⟨numbered _ n, ⟨"acme.gauge", by decide⟩, "Gauge", .bool, rwo, .bool false⟩

/-- Seventeen devices with sixteen such capabilities each. -/
def plant : List Core.DeviceState :=
  (List.finRange 17).map fun n =>
    initialState (numbered _ n) "Rack" (((List.finRange 17).take 16).map gauge)

def plantDevices : List DeviceState := (plant.mapM Adapter.deviceState).toOption.getD []

theorem plant_sendable : Sendable plant := ⟨by decide +kernel, by decide +kernel, by decide +kernel⟩

/-- The request for the plant, what is to be diagnosed of it, and that `build` succeeds: evaluated
    together, so that the devices are converted once. -/
theorem plant_devices : plant.mapM Adapter.deviceState = .ok plantDevices ∧
    maxDiagnostics < (plantDevices.map fun w => w.device.capabilities.countP (diagnosed w)).sum ∧
      ((⟨.default⟩ : ProjectionBuilder).build (.ok ()) plantDevices).1.toBool = true := by
  decide +kernel

/-- Nothing of the plant is projected, and the host refuses to hear so much about it. -/
theorem diagnostics_refused_plant : Sendable plant ∧ ∃ devices built builder',
    plant.mapM Adapter.deviceState = .ok devices ∧
      (⟨.default⟩ : ProjectionBuilder).build (.ok ()) devices = (.ok built, builder') ∧
        ¬ ∃ ds, validateDiagnostics built.diagnostics = .ok ds := by
  obtain ⟨hrequest, hcount, hok⟩ := plant_devices
  cases hb : (⟨.default⟩ : ProjectionBuilder).build (.ok ()) plantDevices with
  | mk outcome builder' =>
    cases outcome with
    | error e => simp [hb, Except.toBool] at hok
    | ok built =>
      refine ⟨plant_sendable, plantDevices, built, builder', hrequest, hb, ?_⟩
      obtain ⟨-, hp⟩ := proper_of_sendable plant_sendable hrequest
      have hv := validated_of_sendable plant_sendable hrequest
      rw [build_diagnostics hb, validateDiagnostics_ok (diagnostics_valid hv),
        diagnostics_length hv hp]
      exact Nat.not_le_of_lt hcount

/-! ## Mapped or diagnosed -/

/-- Every capability is referred to or named in a diagnostic. -/
def MapsOrDiagnoses (devices : List DeviceState) (built : BuiltProjection) : Prop :=
  ∀ w ∈ devices, ∀ c ∈ w.device.capabilities, ⟨w.device.id, c.id⟩ ∈ built.refs ∨
    ∃ d ∈ built.diagnostics, d.deviceId = some w.device.id ∧ d.capabilityId = some c.id

/-- The levels of the device are left to its only light, which does not deal with them. -/
def silent (w : DeviceState) : Bool :=
  match ofType w.device lightOn, ofType w.device lightLevel with
  | [light], [_] => !composes w light
  | [_], _ :: _ :: _ => true
  | _, _ => false

/-- A value that is not shown is diagnosed. -/
theorem selectValue_named {w : DeviceState} {c : Capability} {m : Mapped} {value : Adapter.Value}
    (h : (selectValue w c m value).2 = none) :
    ∃ d ∈ (selectValue w c m value).1, Names w.device c d := by
  unfold selectValue at h ⊢
  split at h
  case h_2 =>
    split at h
    · split at h <;> simp at h
    · simp only [List.mem_singleton, exists_eq_left]
      exact ⟨_, _, _, by simp [texts], rfl⟩
  all_goals
    split at h
    · simp at h
    · simp only [List.mem_singleton, exists_eq_left]
      exact ⟨_, _, _, by simp [texts], rfl⟩

/-- A capability that is no level is selected or named. -/
theorem select_named {w : DeviceState} {c : Capability} (hl : c.capabilityType ≠ lightLevel) :
    (select w c).2.isSome = true ∨ ∃ d ∈ (select w c).1, Names w.device c d := by
  unfold select
  rw [if_neg hl]
  split
  · exact .inr ⟨_, List.mem_singleton.mpr rfl, _, _, _, by simp [texts], rfl⟩
  · split
    · exact .inr ⟨_, List.mem_singleton.mpr rfl, _, _, _, by simp [texts], rfl⟩
    · split
      · exact .inr ⟨_, List.mem_singleton.mpr rfl, _, _, _, by simp [texts], rfl⟩
      · split
        · exact .inr ⟨_, List.mem_singleton.mpr rfl, _, _, _, by simp [texts], rfl⟩
        · cases hs : (selectValue w c _ _).2 with
          | some selected => exact .inl rfl
          | none => exact .inr (selectValue_named hs)

/-- A light that composes takes the only level of its device or names it. -/
theorem level_named {w : DeviceState} {light cap : Capability} (hc : composes w light = true)
    (hcap : ofType w.device lightLevel = [cap]) :
    (∃ x, (select w light).2 = some x ∧ x.levelId = some cap.id) ∨
      ∃ d ∈ (select w light).1, Names w.device cap d := by
  simp only [composes, Bool.and_eq_true, decide_eq_true_eq] at hc
  obtain ⟨⟨⟨ht, hk⟩, hact⟩, hb⟩ := hc
  obtain ⟨on, hon⟩ := Option.isSome_iff_exists.mp hb
  obtain ⟨value, hv, hon⟩ := Option.bind_eq_some_iff.mp hon
  have hne : light.capabilityType ≠ lightLevel := by rw [ht]; decide
  have hof : Mapped.ofType light.capabilityType = some .lightOn := by rw [ht]; decide
  have hsel : select w light = selectValue w light .lightOn value := by
    simp [select, hne, hof, Mapped.expectedKind, hk, Mapped.actuator, hact, hv]
  have hlevel : (∃ level, (composedLevel w light).2 = some (level, cap.id)) ∨
      ((composedLevel w light).2 = none ∧
        ∃ d ∈ (composedLevel w light).1, Names w.device cap d) := by
    unfold composedLevel
    rw [hcap]
    dsimp only
    split
    · exact .inr ⟨rfl, _, List.mem_singleton.mpr rfl, _, _, _, by simp [texts], rfl⟩
    · split
      · exact .inr ⟨rfl, _, List.mem_singleton.mpr rfl, _, _, _, by simp [texts], rfl⟩
      · split
        · rename_i level _
          exact .inl ⟨level, rfl⟩
        · exact .inr ⟨rfl, _, List.mem_singleton.mpr rfl, _, _, _, by simp [texts], rfl⟩
  rw [hsel, selectValue, hon]
  dsimp only
  rcases hlevel with ⟨level, hl⟩ | ⟨hl, d, hd, hn⟩
  · left
    split
    · rename_i hcl
      rw [hcl, Option.some.injEq, Prod.mk.injEq] at hl
      exact ⟨_, rfl, by rw [hl.2]⟩
    · rename_i hcl
      rw [hcl] at hl
      simp at hl
  · right
    split <;> rename_i hcl <;> rw [hcl] at hd <;> exact ⟨d, hd, hn⟩

section MapsOrDiagnoses

variable {devices : List DeviceState} {builder builder' : ProjectionBuilder}
  {saved : Except String Unit} {built : BuiltProjection}
  (hv : ∀ w ∈ devices, Validated w) (h : builder.build saved devices = (.ok built, builder'))

include hv h

/-- What is selected is referred to. -/
theorem ref_of_select {w : DeviceState} (hw : w ∈ devices) {c : Capability}
    (hc : c ∈ w.device.capabilities) {x : Selected} (hx : (select w c).2 = some x) {id : String}
    (hid : id = c.id ∨ x.levelId = some id) : ⟨w.device.id, id⟩ ∈ built.refs := by
  obtain ⟨hresult, hrefs, -⟩ := build_ok h
  rw [hrefs, hresult, List.flatMap_map]
  refine List.mem_flatMap.mpr
    ⟨⟨w, c, x⟩, mem_items.mpr ⟨hw, (hv w hw).complete, hc, hx⟩, mem_refs.mpr ⟨rfl, ?_⟩⟩
  simp only [Projection.capabilityIds, Item.projection, Selected.projection, List.mem_cons,
    Option.mem_toList]
  exact hid

/-- What is named in a turn of the loop is diagnosed. -/
theorem diagnosed_of_names {w : DeviceState} (hw : w ∈ devices) {c cap : Capability}
    (hc : c ∈ w.device.capabilities) (hcap : cap ∈ w.device.capabilities) {d : Diagnostic}
    (hd : d ∈ (select w c).1) (hn : Names w.device cap d) :
    ∃ d ∈ built.diagnostics, d.deviceId = some w.device.id ∧ d.capabilityId = some cap.id := by
  obtain ⟨severity, code, message, -, rfl⟩ := hn
  refine ⟨diagnostic severity code message w.device cap, ?_,
    nonEmpty_of_identifier (hv w hw).identifiers.1,
    nonEmpty_of_identifier ((hv w hw).identifiers.2 cap hcap)⟩
  rw [build_diagnostics h]
  refine List.mem_flatMap.mpr ⟨w, hw, ?_⟩
  simp only [diagnosticsOf, (hv w hw).complete]
  exact List.mem_flatMap.mpr ⟨c, hc, hd⟩

theorem maps_of_not_silent (hn : ∀ w ∈ devices, silent w = false) :
    MapsOrDiagnoses devices built := by
  intro w hw c hc
  by_cases hl : c.capabilityType = lightLevel
  · have hlevel : c ∈ ofType w.device lightLevel := by simp [ofType, hc, hl]
    have hs := hn w hw
    unfold silent at hs
    have hown : (ofType w.device lightOn).length ≠ 1 →
        ∃ d ∈ (select w c).1, Names w.device c d := by
      intro hlen
      unfold select
      rw [if_pos hl]
      split
      · exact ⟨_, List.mem_singleton.mpr rfl, _, _, _, by simp [texts], rfl⟩
      · rename_i hone
        rw [hone] at hlen
        exact absurd rfl hlen
      · exact ⟨_, List.mem_singleton.mpr rfl, _, _, _, by simp [texts], rfl⟩
    by_cases hlen : (ofType w.device lightOn).length = 1
    · obtain ⟨light, hlight⟩ := List.length_eq_one_iff.mp hlen
      rw [hlight] at hs
      obtain ⟨cap, hcap⟩ : ∃ cap, ofType w.device lightLevel = [cap] := by
        cases hll : ofType w.device lightLevel with
        | nil => simp [hll] at hlevel
        | cons cap rest =>
          cases rest with
          | nil => exact ⟨cap, rfl⟩
          | cons _ _ => simp [hll] at hs
      rw [hcap] at hs
      have hcomp : composes w light = true := by simpa using hs
      obtain rfl : c = cap := by simpa [hcap] using hlevel
      have hlm := (mem_ofType hlight).1
      rcases level_named hcomp hcap with ⟨x, hx, hxl⟩ | ⟨d, hd, hnm⟩
      · exact .inl (ref_of_select hv h hw hlm hx (.inr hxl))
      · exact .inr (diagnosed_of_names hv h hw hlm hc hd hnm)
    · obtain ⟨d, hd, hnm⟩ := hown hlen
      exact .inr (diagnosed_of_names hv h hw hc hc hd hnm)
  · rcases select_named hl with hx | ⟨d, hd, hnm⟩
    · obtain ⟨x, hx⟩ := Option.isSome_iff_exists.mp hx
      exact .inl (ref_of_select hv h hw hc hx (.inl rfl))
    · exact .inr (diagnosed_of_names hv h hw hc hc hd hnm)

/-- A level of a silent device is neither referred to nor named. -/
theorem not_maps_of_silent (hd : (devices.map fun w => w.device.id).Nodup) {w : DeviceState}
    (hw : w ∈ devices) (hs : silent w = true) : ¬ MapsOrDiagnoses devices built := by
  intro hall
  -- the device has one light, and a level that is not the only one or that the light leaves out
  obtain ⟨light, level, hlight, hlevel, hleft⟩ : ∃ light level, ofType w.device lightOn = [light] ∧
      level ∈ ofType w.device lightLevel ∧
      ∀ cap, ofType w.device lightLevel = [cap] → composes w light = false := by
    unfold silent at hs
    split at hs
    · rename_i light level hlight hlevel
      exact ⟨light, level, hlight, by simp [hlevel], fun _ _ => by simpa using hs⟩
    · rename_i light level rest _ hlight hlevel
      exact ⟨light, level, hlight, by simp [hlevel], fun cap hcap => by simp [hlevel] at hcap⟩
    · simp at hs
  obtain ⟨hmem, ht⟩ : level ∈ w.device.capabilities ∧ level.capabilityType = lightLevel := by
    simpa [ofType] using hlevel
  have hvw := hv w hw
  have hown : (select w level) = ([], none) := by simp [select, ht, hlight]
  have hsame : ∀ w' ∈ devices, w'.device.id = w.device.id → w' = w := fun w' hw' he =>
    List.inj_on_of_nodup_map hd hw' hw he
  have hcap : ∀ c ∈ w.device.capabilities, c.id = level.id → c = level := fun c hc he =>
    List.inj_on_of_nodup_map hvw.distinct hc hmem he
  have honly : ∀ c ∈ w.device.capabilities, c.capabilityType = lightOn → c = light := by
    intro c hc htc
    have : c ∈ ofType w.device lightOn := by simp [ofType, hc, htc]
    simpa [hlight] using this
  rcases hall w hw level hmem with href | ⟨d, hdm, hdev, hdcap⟩
  · obtain ⟨hresult, hrefs, -⟩ := build_ok h
    rw [hrefs, hresult, List.flatMap_map] at href
    obtain ⟨i, hi, hr⟩ := List.mem_flatMap.mp href
    obtain ⟨hst, -, hic, hsel⟩ := mem_items.mp hi
    obtain ⟨hdev, hid⟩ := mem_refs.mp hr
    have hiw : i.state = w := hsame _ hst hdev
    rw [hiw] at hic hsel
    simp only [Projection.capabilityIds, Item.projection, Selected.projection, List.mem_cons,
      Option.mem_toList] at hid
    rcases hid with hid | hid
    · rw [hcap _ hic hid.symm, hown] at hsel
      simp at hsel
    · obtain ⟨htl, hact, cap, -, hcl, -⟩ := select_level hsel hid
      obtain ⟨-, mapped, value, hm, -, hval, hselv⟩ := select_some hsel
      have hlast := hleft cap hcl
      rw [← honly _ hic htl] at hlast
      have hm' : mapped = .lightOn := by
        rw [htl] at hm
        exact (Option.some.inj ((by decide : Mapped.ofType lightOn = some .lightOn).symm.trans hm)).symm
      subst hm'
      have hb : (wireBool value).isSome = true := by
        unfold selectValue at hselv
        cases hwb : wireBool value with
        | none => simp [hwb] at hselv
        | some b => rfl
      have hk := hvw.kind _ hic _ hm
      simp [composes, htl, hact, hval, hb, hk, Mapped.expectedKind] at hlast
  · rw [build_diagnostics h] at hdm
    obtain ⟨w', hw', hdm⟩ := List.mem_flatMap.mp hdm
    have hvw' := hv w' hw'
    simp only [diagnosticsOf, hvw'.complete] at hdm
    obtain ⟨c, hc, hdm⟩ := List.mem_flatMap.mp hdm
    have hnames : ∀ cap ∈ w'.device.capabilities, Names w'.device cap d → w' = w ∧ cap.id = level.id := by
      rintro cap hcm ⟨severity, code, message, -, rfl⟩
      have h1 : some w'.device.id = some w.device.id :=
        (nonEmpty_of_identifier hvw'.identifiers.1).symm.trans hdev
      have h2 : some cap.id = some level.id :=
        (nonEmpty_of_identifier (hvw'.identifiers.2 cap hcm)).symm.trans hdcap
      exact ⟨hsame w' hw' (Option.some.inj h1), Option.some.inj h2⟩
    rcases select_diagnostics hdm with hn | ⟨hcomp, cap, hcl, hn⟩
    · obtain ⟨rfl, hid⟩ := hnames c hc hn
      rw [hcap c hc hid, hown] at hdm
      simp at hdm
    · obtain ⟨rfl, -⟩ := hnames cap (mem_ofType hcl).1 hn
      have hct : c.capabilityType = lightOn := by
        simp only [composes, Bool.and_eq_true, decide_eq_true_eq] at hcomp
        exact hcomp.1.1.1
      rw [honly c hc hct, hleft cap hcl] at hcomp
      simp at hcomp

end MapsOrDiagnoses

/-- A successful `build` of validated devices maps or diagnoses every capability exactly when no
    device is silent. -/
theorem mapped_or_diagnosed_iff {devices : List DeviceState}
    (hd : (devices.map fun w => w.device.id).Nodup)
    (hdev : ∀ w ∈ devices, ∃ d : Core.Device, d.validate = .ok () ∧ w.device = Adapter.deviceToApi d)
    {builder builder' : ProjectionBuilder} {saved : Except String Unit} {built : BuiltProjection}
    (h : builder.build saved devices = (.ok built, builder')) :
    MapsOrDiagnoses devices built ↔ ∀ w ∈ devices, silent w = false := by
  have hv : ∀ w ∈ devices, Validated w := by
    intro w hw
    obtain ⟨d, hval, hdw⟩ := hdev w hw
    exact validated_of_device hval hdw
  constructor
  · intro hall w hw
    by_contra hs
    rw [Bool.not_eq_false] at hs
    exact not_maps_of_silent hv h hd hw hs hall
  · exact maps_of_not_silent hv h

/-- The request for one device. -/
def request (state : Core.DeviceState) : List DeviceState :=
  ([state].mapM Adapter.deviceState).toOption.getD []

theorem mapped_or_diagnosed_porch : ∃ built builder',
    (⟨.default⟩ : ProjectionBuilder).build (.ok ()) (request porch) = (.ok built, builder') ∧
      MapsOrDiagnoses (request porch) built := by
  refine ⟨_, _, rfl, (@mapped_or_diagnosed_iff (request porch) (by decide) ?_ ⟨.default⟩ _ (.ok ()) _
    rfl).mpr (by decide)⟩
  intro w hw
  rw [List.mem_singleton.mp hw]
  exact ⟨porch.device, by decide, rfl⟩

def secondDimmer : Core.Capability :=
  ⟨⟨"second", by decide⟩, Core.lightLevel, "Second", .number, rwo, .number ⟨0#64⟩⟩

def stair : Core.DeviceState :=
  initialState ⟨"stair", by decide⟩ "Stair" [leftLamp, dimmer, secondDimmer]

/-- Neither dimmer of the stair is projected or named. -/
theorem not_mapped_or_diagnosed_stair : Sendable [stair] ∧ ∃ built builder',
    (⟨.default⟩ : ProjectionBuilder).build (.ok ()) (request stair) = (.ok built, builder') ∧
      ¬ MapsOrDiagnoses (request stair) built := by
  have hs : Sendable [stair] := ⟨by decide, by decide, by decide⟩
  refine ⟨hs, _, _, rfl, ?_⟩
  exact @not_maps_of_silent (request stair) ⟨.default⟩ _ (.ok ()) _
    (validated_of_sendable hs rfl) rfl (by decide) _ (List.mem_singleton.mpr rfl) (by decide)

end Oikade.Matter
