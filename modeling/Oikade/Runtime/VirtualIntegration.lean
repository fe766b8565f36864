/-
  The virtual switches of a configuration (`oikade-runtime/src/virtual_integration.rs`): `new` makes
  their devices, `start` registers them in the runtime one after the other and takes them back when
  one of them is refused.

  A call of the runtime is driven to its return with nothing else running beside it (`perform`), on
  the machine of `Core.Step`. No call that is made here has more than five await points.

  `validate` of the configuration checks the identifier of a switch, `new` checks it again with
  "builtin.virtual." in front. An identifier of more than 112 bytes passes the first check and not
  the second (`startable_iff`).
-/
import Oikade.Config.Model
import Oikade.Core.Linear

namespace Oikade.VirtualIntegration

open Oikade.Core (Device DeviceId Identifier ModelError RuntimeError Sys Call CallId Outcome)

/-! ## The devices -/

/-- `VirtualIntegrationError::Invalid` -/
structure Invalid where
  switchId : String
  error : ModelError
  deriving DecidableEq, Repr

def switchDevice (config : VirtualSwitchConfig) : Except Invalid Device := do
  let id ← (Identifier.new ("builtin.virtual." ++ config.id)).mapError (⟨config.id, ·⟩)
  let capability ← (Identifier.new "on").mapError (⟨config.id, ·⟩)
  let capabilityType ← (Identifier.new "oikade.switch.on").mapError (⟨config.id, ·⟩)
  pure ⟨id, config.name, "Oikade", "Virtual Switch",
    [⟨capability, capabilityType, "On", .bool, ⟨true, true, true⟩, .bool config.initialOn⟩]⟩

/-- `VirtualIntegration::new` -/
def new (switches : List VirtualSwitchConfig) : Except Invalid (List Device) :=
  switches.mapM fun switch => do
    let device ← switchDevice switch
    device.validate.mapError (⟨switch.id, ·⟩)
    pure device

/-! ## Calls of the runtime -/

/-- The call runs until it returns, for at most so many steps. -/
def drive : Nat → Sys → CallId → Option (Outcome × Sys)
  | steps, s, k =>
    match s.calls[k]? with
    | some (.returned _ outcome) => some (outcome, s)
    | some (.running ..) =>
      match steps with
      | 0 => none
      | steps + 1 => (Core.step s (.advance k)).bind fun s => drive steps s k
    | _ => none

def perform (s : Sys) (k : CallId) (call : Call) : Option (Outcome × Sys) :=
  (Core.step s (.invoke k call)).bind fun s => drive 8 s k

/-- The devices are unregistered, and what that returns is ignored. -/
def undo (s : Sys) (k : CallId) : List DeviceId → Option Sys
  | [] => some s
  | id :: ids => (perform s k { op := .unregister id }).bind fun (_, s) => undo s (k + 1) ids

/-- The loop of `start`, with the devices that it has registered. -/
def start (s : Sys) (k : CallId) (registered : List DeviceId) :
    List Device → Option (Except RuntimeError Unit × Sys)
  | [] => some (.ok (), s)
  | device :: devices =>
    match perform s k { op := .register device true } with
    | none => none
    | some (.ok _, s) => start s (k + 1) (registered ++ [device.id]) devices
    | some (.error e, s) => (undo s (k + 1) registered.reverse).map fun s => (.error e, s)

/-- A runtime without stored state that has just been started; `persistent` says whether it has a
    store at all. -/
def freshRuntime (persistent : Bool) : Option Sys :=
  (perform (Sys.new persistent fun _ => none) 0 { op := .start }).map Prod.snd

/-- The switches can be started: their devices are made, are distinct and are all registered. -/
def Startable (switches : List VirtualSwitchConfig) : Prop :=
  ∃ devices, new switches = .ok devices ∧ (devices.map Device.id).Nodup ∧
    ∀ persistent, ∃ s t, freshRuntime persistent = some s ∧ start s 1 [] devices = some (.ok (), t) ∧
      ∀ device ∈ devices, device.id ∈ t.shared.state.devices

/-! ## Identifiers -/

theorem utf8ByteSize_switchId (id : String) :
    ("builtin.virtual." ++ id).utf8ByteSize = 16 + id.utf8ByteSize := by
  rw [String.utf8ByteSize_append]
  rfl

/-- The identifier of a device is valid if that of its switch leaves room for the namespace. -/
theorem validateIdentifier_switch {id : String} (h : Core.validateIdentifier id = .ok ()) :
    Core.validateIdentifier ("builtin.virtual." ++ id) = .ok () ↔ id.utf8ByteSize ≤ 112 := by
  obtain ⟨hempty, -, -, hlast, hall⟩ := Core.validateIdentifier_ok.mp h
  have hchars : ("builtin.virtual." ++ id).toList = "builtin.virtual.".toList ++ id.toList :=
    String.toList_append
  rw [Core.validateIdentifier_ok, utf8ByteSize_switchId, Core.maxIdentifierLength, hchars]
  constructor
  · rintro ⟨-, hlen, -⟩
    omega
  · intro hlen
    have hspace : "builtin.virtual.".toList.all Core.validInner = true := by decide
    refine ⟨?_, by omega, rfl, ?_, ?_⟩
    · have hne : "builtin.virtual." ++ id ≠ "" := fun he => by
        rw [he] at hchars
        simp at hchars
      exact String.isEmpty_eq_false_iff.mpr hne
    · cases hid : id.toList.getLast? with
      | none => simp [hid] at hlast
      | some c =>
        rw [List.getLast?_append, hid]
        simpa [hid] using hlast
    · intro c hc
      rcases List.mem_append.mp hc with hc | hc
      · exact List.all_eq_true.mp hspace c hc
      · exact hall c hc

/-! ## The device of a switch -/

def onCapability (initialOn : Bool) : Core.Capability :=
  ⟨⟨"on", Core.validateIdentifier_on⟩, Core.switchOn, "On", .bool, ⟨true, true, true⟩, .bool initialOn⟩

theorem switchDevice_ok {config : VirtualSwitchConfig} {device : Device} :
    switchDevice config = .ok device ↔
      device.id.asStr = "builtin.virtual." ++ config.id ∧ device.name = config.name ∧
        device.manufacturer = "Oikade" ∧ device.model = "Virtual Switch" ∧
        device.capabilities = [onCapability config.initialOn] := by
  have hon : (Identifier.new "on" : Except ModelError Core.CapabilityId) = .ok ⟨"on", by decide⟩ :=
    Identifier.new_ok.mpr rfl
  have htype : (Identifier.new "oikade.switch.on" : Except ModelError Core.CapabilityType) =
      .ok Core.switchOn := Identifier.new_ok.mpr rfl
  unfold switchDevice
  constructor
  · intro h
    obtain ⟨id, hid, h⟩ := Fallible.bind_ok.mp h
    rw [hon, htype] at h
    cases h
    exact ⟨Identifier.new_ok.mp (Fallible.mapError_ok.mp hid), rfl, rfl, rfl, rfl⟩
  · obtain ⟨id, name, manufacturer, model, capabilities⟩ := device
    rintro ⟨hid, hname, hmanufacturer, hmodel, hcapabilities⟩
    cases hname
    cases hmanufacturer
    cases hmodel
    cases hcapabilities
    refine Fallible.bind_ok.mpr ⟨id, Fallible.mapError_ok.mpr (Identifier.new_ok.mpr hid), ?_⟩
    rw [hon, htype]
    rfl

theorem onCapability_validate (initialOn : Bool) : (onCapability initialOn).validate = .ok () := by
  cases initialOn <;> decide

theorem onCapability_value (initialOn : Bool) :
    Core.validateCapabilityValue (onCapability initialOn) (.bool initialOn) = .ok () := by
  cases initialOn <;> decide

/-- A device of one capability "On" that has a name. -/
structure IsSwitch (device : Device) : Prop where
  named : (Text.trim device.name).isEmpty = false
  capabilities : ∃ initialOn, device.capabilities = [onCapability initialOn]

theorem IsSwitch.validate {device : Device} (h : IsSwitch device) : device.validate = .ok () := by
  obtain ⟨initialOn, hcapabilities⟩ := h.capabilities
  simp [Device.validate, Device.validateCapabilities, h.named, hcapabilities,
    onCapability_validate, bind, Except.bind]

/-- What is restored from nothing has to be saved. -/
theorem IsSwitch.restores {device : Device} (h : IsSwitch device) :
    ∃ restored, Core.Restores device none restored ∧ restored.dirty = true := by
  obtain ⟨initialOn, hcapabilities⟩ := h.capabilities
  refine ⟨⟨(∅ : Core.Record).insert (onCapability initialOn).id (.bool initialOn),
    (∅ : Core.Record).insert (onCapability initialOn).id (.bool initialOn), true⟩, ?_, rfl⟩
  unfold Core.Restores
  rw [hcapabilities, Core.restoreValues]
  simp only [Option.getD_none, Std.ExtTreeMap.getElem?_empty]
  exact Fallible.bind_ok.mpr ⟨⟨⟩, onCapability_value initialOn, rfl⟩

/-! ## One call -/

theorem running_of_advance {s s' : Sys} {k : CallId} (h : Core.step s (.advance k) = some s') :
    ∃ call pc, s.calls[k]? = some (.running call pc) := by
  simp only [Core.step] at h
  split at h
  · exact ⟨_, _, ‹_›⟩
  · cases h

theorem drive_of_run {k : CallId} {n steps : Nat} {s t : Sys} {call : Call} {outcome : Outcome}
    (hn : n ≤ steps) (hrun : Core.run s (List.replicate n (.advance k)) = some t)
    (hreturned : t.calls[k]? = some (.returned call outcome)) :
    drive steps s k = some (outcome, t) := by
  induction n generalizing s steps with
  | zero =>
    cases hrun
    unfold drive
    rw [hreturned]
  | succ n ih =>
    obtain ⟨s', hstep, hrun⟩ := Machine.run_cons_eq_some.mp hrun
    obtain ⟨call', pc, hcall⟩ := running_of_advance hstep
    obtain ⟨m, rfl⟩ : ∃ m, steps = m + 1 := ⟨steps - 1, by omega⟩
    unfold drive
    simp only [hcall, hstep, Option.bind_some]
    exact ih (by omega) hrun

theorem perform_of_run {k : CallId} {n : Nat} {s t : Sys} {call call' : Call} {outcome : Outcome}
    (hn : n ≤ 8) (hrun : Core.run s (Core.alone k call n) = some t)
    (hreturned : t.calls[k]? = some (.returned call' outcome)) :
    perform s k call = some (outcome, t) := by
  obtain ⟨s', hstep, hrun⟩ := Machine.run_cons_eq_some.mp hrun
  rw [perform, hstep, Option.bind_some]
  exact drive_of_run hn hrun hreturned

/-- The runtime is started, nothing runs in it, and it knows none of the devices. -/
structure Clear (s : Sys) (k : CallId) (devices : List Device) : Prop where
  quiet : s.Quiet
  unused : ∀ j, k ≤ j → j ∉ s.calls
  started : s.shared.state.started = true
  unregistered : ∀ device ∈ devices, device.id ∉ s.shared.state.devices
  unstored : ∀ device ∈ devices, s.shared.store device.id = none

/-- A call that has returned leaves the runtime quiet. -/
theorem quiet_returned {s t : Sys} (hq : s.Quiet) {k : CallId} {call : Call} {outcome : Outcome}
    (ht : t.calls = s.calls.insert k (.returned call outcome)) : t.Quiet := by
  intro j call' pc hj
  rw [ht, Core.getElem?_insert] at hj
  split at hj
  · cases hj
  · exact hq j call' pc hj

theorem begin_register {device : Device} (h : IsSwitch device) :
    Core.begin { op := .register device true } = .ok .lifecycle := by
  obtain ⟨initialOn, hcapabilities⟩ := h.capabilities
  simp [Core.begin, h.validate, Core.missingHandler, hcapabilities]

/-- `register` up to its second `state.lock()`. -/
theorem run_register {s : Sys} {k : CallId} {device : Device} {devices : List Device}
    (hc : Clear s k (device :: devices)) (h : IsSwitch device) :
    ∃ n t values, n ≤ 4 ∧ Core.run s (Core.alone k { op := .register device true } n) = some t ∧
      t.calls = s.calls.insert k (.running { op := .register device true } (.insert values)) ∧
      t.shared.state = s.shared.state ∧
      ∀ id, id ≠ device.id → t.shared.store id = s.shared.store id := by
  obtain ⟨restored, hrestores, hdirty⟩ := h.restores
  have hunregistered := hc.unregistered device List.mem_cons_self
  have hunstored := hc.unstored device List.mem_cons_self
  obtain ⟨t₀, hrun₀, hshared₀, hcalls₀, -⟩ :=
    Core.run_alone_zero (hc.unused k (Nat.le_refl k)) (begin_register h)
  obtain ⟨t₁, hrun₁, hshared₁, hcalls₁, -⟩ := Core.run_alone_succ hc.quiet hrun₀ hcalls₀ .lifecycle
  replace hshared₁ : t₁.shared = s.shared := hshared₁.trans hshared₀
  cases hp : s.shared.persistent with
  | false =>
    have hnext : restored.next t₁.shared = .insert ⟨restored.current, restored.persisted⟩ := by
      simp [Core.Restored.next, hshared₁, hp]
    obtain ⟨t₂, hrun₂, hshared₂, hcalls₂, -⟩ := Core.run_alone_succ hc.quiet hrun₁ hcalls₁
      (.restoreNew rfl (hshared₁ ▸ hc.started) (hshared₁ ▸ hunregistered) (hshared₁ ▸ hp) hrestores)
    replace hshared₂ : t₂.shared = s.shared := hshared₂.trans hshared₁
    rw [hnext] at hcalls₂
    exact ⟨2, t₂, _, by omega, hrun₂, hcalls₂, by rw [hshared₂], fun _ _ => by rw [hshared₂]⟩
  | true =>
    obtain ⟨t₂, hrun₂, hshared₂, hcalls₂, -⟩ := Core.run_alone_succ hc.quiet hrun₁ hcalls₁
      (.enterRegister rfl (hshared₁ ▸ hc.started) (hshared₁ ▸ hunregistered) (hshared₁ ▸ hp))
    replace hshared₂ : t₂.shared = s.shared := hshared₂.trans hshared₁
    have hnext : restored.next t₂.shared =
        .savingInitial ⟨restored.current, restored.persisted⟩ := by
      simp [Core.Restored.next, hshared₂, hp, hdirty]
    obtain ⟨t₃, hrun₃, hshared₃, hcalls₃, -⟩ := Core.run_alone_succ hc.quiet hrun₂ hcalls₂
      (.restore rfl rfl (by rw [hshared₂, hunstored]; exact hrestores))
    replace hshared₃ : t₃.shared = s.shared := hshared₃.trans hshared₂
    rw [hnext] at hcalls₃
    obtain ⟨t₄, hrun₄, hshared₄, hcalls₄, -⟩ :=
      Core.run_alone_succ hc.quiet hrun₃ hcalls₃ (.saveInitial rfl rfl)
    refine ⟨4, t₄, _, by omega, hrun₄, hcalls₄, ?_, fun id hid => ?_⟩
    · rw [hshared₄, hshared₃]
      rfl
    · rw [hshared₄, hshared₃]
      exact Function.update_of_ne hid _ _

/-- A switch is registered, and the runtime is clear for the switches after it. -/
theorem perform_register {s : Sys} {k : CallId} {device : Device} {devices : List Device}
    (hc : Clear s k (device :: devices)) (h : IsSwitch device)
    (hnew : device.id ∉ devices.map Device.id) :
    ∃ t, perform s k { op := .register device true } = some (.ok .done, t) ∧
      Clear t (k + 1) devices ∧
      ∀ id, id ∈ t.shared.state.devices ↔ id = device.id ∨ id ∈ s.shared.state.devices := by
  obtain ⟨n, t, values, hn, hrun, hcalls, hstate, hstore⟩ := run_register hc h
  have hmove : Core.Move t.shared { op := .register device true } (.insert values) _ _ :=
    .insert rfl (hstate ▸ hc.started) (hstate ▸ hc.unregistered device List.mem_cons_self)
  obtain ⟨t', hrun', hshared', hcalls', -⟩ := Core.run_alone_succ hc.quiet hrun hcalls hmove
  have hreturned : t'.calls[k]? = some (.returned { op := .register device true } (.ok .done)) := by
    rw [hcalls', Core.getElem?_insert, if_pos rfl]
    rfl
  have hdevices : ∀ id, id ∈ t'.shared.state.devices ↔
      id = device.id ∨ id ∈ s.shared.state.devices := by
    intro id
    have hinserted : t'.shared.state.devices = s.shared.state.devices.insert device.id
        ⟨t.shared.nextRef, device, Core.capabilityMap device.capabilities, true⟩ := by
      rw [hshared', ← hstate]
      rfl
    rw [hinserted, Std.ExtTreeMap.mem_insert, Std.LawfulEqOrd.compare_eq_iff_eq, eq_comm]
  refine ⟨t', perform_of_run (by omega) hrun' hreturned, ?_, hdevices⟩
  have hother : ∀ other ∈ devices, other.id ≠ device.id := fun other hother heq =>
    hnew (heq ▸ List.mem_map_of_mem hother)
  exact
    { quiet := quiet_returned hc.quiet hcalls'
      unused := fun j hj => by
        rw [hcalls', Std.ExtTreeMap.mem_insert, Std.LawfulEqOrd.compare_eq_iff_eq]
        rintro (rfl | hmem)
        · exact Nat.not_succ_le_self _ hj
        · exact hc.unused j (Nat.le_of_succ_le hj) hmem
      started := by
        rw [hshared']
        exact (congrArg Core.RuntimeState.started hstate).trans hc.started
      unregistered := fun other hmem => by
        rw [hdevices]
        rintro (heq | hold)
        · exact hother other hmem heq
        · exact hc.unregistered other (List.mem_cons_of_mem _ hmem) hold
      unstored := fun other hmem => by
        rw [hshared']
        exact (hstore _ (hother other hmem)).trans
          (hc.unstored other (List.mem_cons_of_mem _ hmem)) }

/-! ## The loop of `start` -/

theorem start_ok {s : Sys} {k : CallId} {registered : List DeviceId} {devices : List Device}
    (hc : Clear s k devices) (h : ∀ device ∈ devices, IsSwitch device)
    (hnodup : (devices.map Device.id).Nodup) :
    ∃ t, start s k registered devices = some (.ok (), t) ∧
      (∀ id ∈ s.shared.state.devices, id ∈ t.shared.state.devices) ∧
      ∀ device ∈ devices, device.id ∈ t.shared.state.devices := by
  induction devices generalizing s k registered with
  | nil => exact ⟨s, rfl, fun _ hid => hid, by simp⟩
  | cons device devices ih =>
    obtain ⟨hdevice, hrest⟩ := List.forall_mem_cons.mp h
    obtain ⟨hnew, hnodup⟩ := List.nodup_cons.mp hnodup
    obtain ⟨s', hperform, hclear, hdevices⟩ := perform_register hc hdevice hnew
    obtain ⟨t, hstart, hkept, hall⟩ := @ih s' (k + 1) (registered ++ [device.id]) hclear hrest hnodup
    refine ⟨t, ?_, fun id hid => hkept id ((hdevices id).mpr (.inr hid)), ?_⟩
    · simp only [start, hperform]
      exact hstart
    · exact List.forall_mem_cons.mpr ⟨hkept _ ((hdevices _).mpr (.inl rfl)), hall⟩

/-- A runtime that has just been started is clear for any devices. -/
theorem clear_freshRuntime (persistent : Bool) (devices : List Device) :
    ∃ s, freshRuntime persistent = some s ∧ Clear s 1 devices := by
  have hquiet : (Sys.new persistent fun _ => none).Quiet := by
    intro j call pc hj
    simp [Sys.new] at hj
  obtain ⟨t₀, hrun₀, hshared₀, hcalls₀, -⟩ :=
    @Core.run_alone_zero (Sys.new persistent fun _ => none) 0 { op := .start } .lifecycle
      (by simp [Sys.new]) rfl
  obtain ⟨t₁, hrun₁, hshared₁, hcalls₁, -⟩ := Core.run_alone_succ hquiet hrun₀ hcalls₀ .lifecycle
  replace hshared₁ := hshared₁.trans hshared₀
  obtain ⟨t, hrun, hshared, hcalls, -⟩ :=
    Core.run_alone_succ hquiet hrun₁ hcalls₁ (.start rfl (by rw [hshared₁]; rfl))
  rw [hshared₁] at hshared
  have hreturned : t.calls[0]? = some (.returned { op := .start } (.ok .done)) := by
    rw [hcalls, Core.getElem?_insert, if_pos rfl]
    rfl
  refine ⟨t, by rw [freshRuntime, perform_of_run (by omega) hrun hreturned]; rfl, ?_⟩
  exact
    { quiet := quiet_returned hquiet hcalls
      unused := fun j hj => by
        rw [hcalls, Std.ExtTreeMap.mem_insert, Std.LawfulEqOrd.compare_eq_iff_eq]
        rintro (rfl | hmem)
        · exact Nat.not_succ_le_zero _ hj
        · simp [Sys.new] at hmem
      started := by rw [hshared]; rfl
      unregistered := fun device _ => by
        rw [hshared]
        exact Std.ExtTreeMap.not_mem_empty
      unstored := fun device _ => by rw [hshared]; rfl }

/-! ## What a configuration promises -/

theorem new_ids {switches : List VirtualSwitchConfig} {devices : List Device}
    (h : new switches = .ok devices) : devices.map (·.id.asStr) =
      switches.map fun switch => "builtin.virtual." ++ switch.id := by
  refine Fallible.mapM_map (fun switch device hdevice => ?_) h
  obtain ⟨device', hmade, hdevice⟩ := Fallible.bind_ok.mp hdevice
  obtain ⟨⟨⟩, -, hdevice⟩ := Fallible.bind_ok.mp hdevice
  cases hdevice
  exact (switchDevice_ok.mp hmade).1

theorem new_isSwitch {switches : List VirtualSwitchConfig} {devices : List Device}
    (h : new switches = .ok devices)
    (hnamed : ∀ switch ∈ switches, (Text.trim switch.name).isEmpty = false) :
    ∀ device ∈ devices, IsSwitch device := by
  intro device hdevice
  obtain ⟨switch, hswitch, hmade⟩ := Fallible.mapM_mem_right h hdevice
  obtain ⟨device', hmade, hdone⟩ := Fallible.bind_ok.mp hmade
  obtain ⟨⟨⟩, -, hdone⟩ := Fallible.bind_ok.mp hdone
  cases hdone
  obtain ⟨-, hname, -, -, hcapabilities⟩ := switchDevice_ok.mp hmade
  exact ⟨hname ▸ hnamed switch hswitch, _, hcapabilities⟩

/-- The namespace keeps distinct identifiers apart. -/
theorem nodup_switchIds {switches : List VirtualSwitchConfig}
    (h : (switches.map VirtualSwitchConfig.id).Nodup) :
    (switches.map fun switch => "builtin.virtual." ++ switch.id).Nodup := by
  have hmap : (switches.map fun switch => "builtin.virtual." ++ switch.id) =
      (switches.map VirtualSwitchConfig.id).map ("builtin.virtual." ++ ·) := by
    rw [List.map_map]
    rfl
  rw [hmap]
  refine h.map fun a b hab => ?_
  have hchars := congrArg String.toList hab
  rw [String.toList_append, String.toList_append] at hchars
  exact String.toList_inj.mp (List.append_cancel_left hchars)

/-- The devices are made if and only if every identifier leaves room for the namespace. -/
theorem new_ok_iff {switches : List VirtualSwitchConfig}
    (hvalid : ∀ switch ∈ switches, Core.validateIdentifier switch.id = .ok () ∧
      (Text.trim switch.name).isEmpty = false) :
    (∃ devices, new switches = .ok devices) ↔
      ∀ switch ∈ switches, switch.id.utf8ByteSize ≤ 112 := by
  constructor
  · rintro ⟨devices, hnew⟩ switch hswitch
    obtain ⟨device, -, hmade⟩ := Fallible.mapM_mem_left hnew hswitch
    obtain ⟨device', hmade, -⟩ := Fallible.bind_ok.mp hmade
    have hid := (switchDevice_ok.mp hmade).1
    exact (validateIdentifier_switch (hvalid switch hswitch).1).mp (hid ▸ device'.id.valid)
  · intro hroom
    refine Fallible.mapM_of_forall fun switch hswitch => ?_
    obtain ⟨hid, hname⟩ := hvalid switch hswitch
    let device : Device := ⟨⟨_, (validateIdentifier_switch hid).mpr (hroom switch hswitch)⟩,
      switch.name, "Oikade", "Virtual Switch", [onCapability switch.initialOn]⟩
    have hvalidate : device.validate = .ok () := IsSwitch.validate ⟨hname, _, rfl⟩
    refine ⟨device, Fallible.bind_ok.mpr ⟨device, switchDevice_ok.mpr ⟨rfl, rfl, rfl, rfl, rfl⟩, ?_⟩⟩
    exact Fallible.bind_ok.mpr ⟨⟨⟩, Fallible.mapError_ok.mpr hvalidate, rfl⟩

/-- The switches of a configuration that validates can be started if and only if none of them has
    an identifier of more than 112 bytes. -/
theorem startable_iff {config normalized : Config} (h : config.validate = .ok normalized) :
    Startable config.switches ↔ ∀ switch ∈ config.switches, switch.id.utf8ByteSize ≤ 112 := by
  obtain ⟨hvalid, hnodup, -⟩ := Config.validateSwitches_ok (Config.validate_lists h).1
  rw [← new_ok_iff hvalid]
  constructor
  · rintro ⟨devices, hnew, -⟩
    exact ⟨devices, hnew⟩
  · rintro ⟨devices, hnew⟩
    have hswitches := new_isSwitch hnew fun switch hswitch => (hvalid switch hswitch).2
    have hids : (devices.map Device.id).Nodup := by
      refine List.Nodup.of_map Identifier.asStr ?_
      rw [List.map_map]
      show (devices.map (·.id.asStr)).Nodup
      rw [new_ids hnew]
      exact nodup_switchIds hnodup
    refine ⟨devices, hnew, hids, fun persistent => ?_⟩
    obtain ⟨s, hfresh, hclear⟩ := clear_freshRuntime persistent devices
    obtain ⟨t, hstart, -, hall⟩ := start_ok hclear hswitches hids
    exact ⟨s, t, hfresh, hstart, hall⟩

def desk : Config :=
  { switches := [⟨"desk", "Desk Switch", true⟩, ⟨"window", "Window Switch", false⟩] }

theorem startable_iff_desk : desk.validate = .ok desk ∧ Startable desk.switches := by
  have hvalid : desk.validate = .ok desk := by decide +kernel
  exact ⟨hvalid, (startable_iff hvalid).mpr (by decide)⟩

/-- An identifier of 113 bytes. -/
def longId : String := String.ofList (List.replicate 113 'a')

def longDesk : Config := { switches := [⟨longId, "Desk Switch", true⟩] }

/-- The configuration is accepted and its switch is not. -/
theorem not_startable_longDesk :
    longDesk.validate = .ok longDesk ∧
      new longDesk.switches = .error ⟨longId, .longIdentifier⟩ ∧ ¬Startable longDesk.switches := by
  have hnew : new longDesk.switches = .error ⟨longId, .longIdentifier⟩ := by decide +kernel
  refine ⟨by decide +kernel, hnew, ?_⟩
  rintro ⟨devices, hdevices, -⟩
  rw [hnew] at hdevices
  cases hdevices

end Oikade.VirtualIntegration
