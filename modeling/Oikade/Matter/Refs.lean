/-
  The projection references of `build`, what the host makes of them and what the bridge finds under
  them.

  `items devices` are the capabilities that get an endpoint, in the order of the request. `build`
  returns their projections and the references of these (`build_ok`), with an endpoint for each that
  no other has. A reference can be named twice in one way only: two lights of a device take the same
  level. `build` composes a level with every light of the device, although it diagnoses a level
  with several lights as ambiguous; so the references are sound exactly when no device is
  `contested` (`sound_iff`).
-/
import Oikade.Core.Restore
import Oikade.Matter.Projection
import Mathlib.Data.List.Induction
import Mathlib.Data.List.Pairwise

namespace Oikade.Matter

open Adapter (Capability Device DeviceState CapabilityState)

/-! ## What `build` returns -/

/-- A capability that gets an endpoint. -/
structure Item where
  state : DeviceState
  capability : Capability
  selected : Selected

namespace Item

def key (i : Item) : String := mappingKey i.state.device.id i.capability.id

def projection (m : EndpointMappings) (i : Item) : Projection :=
  i.selected.projection i.state.device i.capability ((m.mappings[i.key]?).getD 0)

end Item

def itemOf (state : DeviceState) (c : Capability) : Option Item :=
  (select state c).2.map fun selected => ⟨state, c, selected⟩

def itemsOf (state : DeviceState) : List Item :=
  if (deviceDiagnostic state.device).isSome then []
  else state.device.capabilities.filterMap (itemOf state)

def items (devices : List DeviceState) : List Item := devices.flatMap itemsOf

/-- The accumulators of `build` once the items are done. -/
structure Listed (is : List Item) (b : Build) : Prop where
  known : ∀ i ∈ is, ∃ e, b.mappings.mappings[i.key]? = some e
  result : b.result = is.map (Item.projection b.mappings)
  refs : b.refs = b.result.flatMap Projection.refs

theorem projection_of_keeps {m m' : EndpointMappings} (h : m.Keeps m') {i : Item}
    (hi : ∃ e, m.mappings[i.key]? = some e) : i.projection m' = i.projection m := by
  obtain ⟨e, he⟩ := hi
  simp [Item.projection, he, h _ e he]

theorem pushCapability_listed {state : DeviceState} {c : Capability} {is : List Item}
    {b b' : Build} (hb : Listed is b) (h : pushCapability state b c = .ok b') :
    Listed (is ++ (itemOf state c).toList) b' := by
  unfold pushCapability at h
  split at h
  · rename_i hsel
    cases Except.ok.inj h
    simpa [itemOf, hsel] using ⟨hb.known, hb.result, hb.refs⟩
  · rename_i selected hsel
    split at h
    · simp at h
    · rename_i e m halloc
      cases Except.ok.inj h
      obtain ⟨hnew, hkeeps⟩ := EndpointMappings.allocate_some halloc
      have hitem : (itemOf state c).toList = [⟨state, c, selected⟩] := by simp [itemOf, hsel]
      have hold : is.map (Item.projection m) = is.map (Item.projection b.mappings) :=
        List.map_congr_left fun i hi => projection_of_keeps hkeeps (hb.known i hi)
      rw [hitem]
      refine ⟨fun i hi => ?_, ?_, ?_⟩
      · rcases List.mem_append.mp hi with hi | hi
        · obtain ⟨e', he'⟩ := hb.known i hi
          exact ⟨e', hkeeps _ e' he'⟩
        · rw [List.mem_singleton.mp hi]
          exact ⟨e, hnew⟩
      · show b.result ++ [selected.projection state.device c e] = _
        rw [List.map_append, hold, hb.result]
        simp [Item.projection, Item.key, hnew]
      · show b.refs ++ (selected.projection state.device c e).refs = _
        rw [List.flatMap_append, ← hb.refs]
        simp

theorem pushDevice_listed {state : DeviceState} {is : List Item} {b b' : Build}
    (hb : Listed is b) (h : pushDevice b state = .ok b') : Listed (is ++ itemsOf state) b' := by
  unfold pushDevice at h
  split at h
  · rename_i d hd
    cases Except.ok.inj h
    simpa [itemsOf, hd] using ⟨hb.known, hb.result, hb.refs⟩
  · rename_i hd
    have hcaps := Fallible.foldlM_ok
      (P := fun done b => Listed (is ++ done.filterMap (itemOf state)) b)
      (fun done b c b₁ hdone hstep => by
        have hnext := pushCapability_listed hdone hstep
        rw [List.append_assoc] at hnext
        rw [List.filterMap_append, List.filterMap_cons]
        cases hi : itemOf state c <;> simpa [hi] using hnext)
      h (by simpa using hb)
    simpa [itemsOf, hd] using hcaps

theorem build_listed {devices : List DeviceState} {m : EndpointMappings} {b : Build}
    (h : devices.foldlM pushDevice ⟨m, [], [], []⟩ = .ok b) : Listed (items devices) b :=
  Fallible.foldlM_ok (P := fun done b => Listed (items done) b)
    (fun done b state b₁ hdone hstep => by
      have hnext := pushDevice_listed hdone hstep
      simpa [items] using hnext)
    h ⟨by simp [items], by simp [items], by simp⟩

/-- `build` returns the projections of the items, their references, and keeps endpoints for them. -/
theorem build_ok {builder builder' : ProjectionBuilder} {saved : Except String Unit}
    {devices : List DeviceState} {built : BuiltProjection}
    (h : builder.build saved devices = (.ok built, builder')) :
    built.result = (items devices).map (Item.projection builder'.mappings) ∧
      built.refs = built.result.flatMap Projection.refs ∧
      ∀ i ∈ items devices, ∃ e, builder'.mappings.mappings[i.key]? = some e := by
  unfold ProjectionBuilder.build at h
  split at h
  · simp at h
  · rename_i b hb
    have hlisted := build_listed hb
    split at h
    · simp at h
    · split at h
      · simp at h
      · cases h
        exact ⟨hlisted.result, hlisted.refs, hlisted.known⟩

/-! ## What the projection set holds -/

theorem byCapability_foldl (ids : List String) (f : String × String → Option Nat) (d : String)
    (e : Nat) (k : String × String) :
    ids.foldl (fun f id => Function.update f (d, id) (some e)) f k =
      if k.1 = d ∧ k.2 ∈ ids then some e else f k := by
  induction ids generalizing f with
  | nil => simp
  | cons id ids ih =>
    rw [List.foldl_cons, ih, Function.update_apply]
    obtain ⟨d', id'⟩ := k
    by_cases hd : d' = d <;> by_cases hid : id' = id <;> simp [hd, hid]

theorem mem_refs {p : Projection} {r : ProjectionRef} :
    r ∈ p.refs ↔ p.deviceId = r.deviceId ∧ r.capabilityId ∈ p.capabilityIds := by
  obtain ⟨d, id⟩ := r
  simp only [Projection.refs, List.mem_map, Adapter.Projection.mk.injEq]
  constructor
  · rintro ⟨id', hid, hd, rfl⟩
    exact ⟨hd, hid⟩
  · rintro ⟨hd, hid⟩
    exact ⟨id, hid, hd, rfl⟩

theorem replace_snoc (ps : List Projection) (p : Projection) :
    ProjectionSet.replace (ps ++ [p]) = (ProjectionSet.replace ps).insert p := by
  simp [ProjectionSet.replace]

/-- An endpoint of the set belongs to a projection that was put in. -/
theorem replace_byEndpoint {ps : List Projection} {e : Nat} {p : Projection}
    (h : (ProjectionSet.replace ps).byEndpoint e = some p) : p ∈ ps ∧ p.endpoint = e := by
  induction ps using List.reverseRecOn with
  | nil => simp [ProjectionSet.replace, ProjectionSet.default] at h
  | append_singleton ps q ih =>
    rw [replace_snoc] at h
    simp only [ProjectionSet.insert, Function.update_apply] at h
    split at h
    · rename_i he
      cases Option.some.inj h
      exact ⟨by simp, he.symm⟩
    · exact ⟨List.mem_append_left _ (ih h).1, (ih h).2⟩

/-- A capability of the set leads to the endpoint of a projection that has it. -/
theorem replace_byCapability {ps : List Projection} {key : String × String} {e : Nat}
    (h : (ProjectionSet.replace ps).byCapability key = some e) :
    ∃ p ∈ ps, p.endpoint = e ∧ p.deviceId = key.1 ∧ key.2 ∈ p.capabilityIds := by
  induction ps using List.reverseRecOn with
  | nil => simp [ProjectionSet.replace, ProjectionSet.default] at h
  | append_singleton ps q ih =>
    rw [replace_snoc] at h
    simp only [ProjectionSet.insert, byCapability_foldl] at h
    split at h
    · rename_i hq
      exact ⟨q, by simp, Option.some.inj h, hq.1.symm, hq.2⟩
    · obtain ⟨p, hp, hp'⟩ := ih h
      exact ⟨p, List.mem_append_left _ hp, hp'⟩

/-- Distinct endpoints are all found. -/
theorem replace_mem {ps : List Projection} (hd : (ps.map Projection.endpoint).Nodup)
    {p : Projection} (hp : p ∈ ps) :
    (ProjectionSet.replace ps).byEndpoint p.endpoint = some p := by
  induction ps using List.reverseRecOn with
  | nil => simp at hp
  | append_singleton ps q ih =>
    rw [List.map_append, List.nodup_append] at hd
    rw [replace_snoc]
    simp only [ProjectionSet.insert, Function.update_apply]
    rcases List.mem_append.mp hp with hp | hp
    · have hne : p.endpoint ≠ q.endpoint := hd.2.2 _ (List.mem_map_of_mem hp) _ (by simp)
      rw [if_neg hne, ih hd.1 hp]
    · rw [List.mem_singleton.mp hp, if_pos rfl]

/-- Distinct endpoints and distinct references are all found. -/
theorem replace_find {ps : List Projection} (he : (ps.map Projection.endpoint).Nodup)
    (hr : (ps.flatMap Projection.refs).Nodup) {p : Projection} (hp : p ∈ ps) :
    (ProjectionSet.replace ps).byEndpoint p.endpoint = some p ∧
      ∀ id ∈ p.capabilityIds, (ProjectionSet.replace ps).find p.deviceId id = some p := by
  have hend := replace_mem he hp
  suffices h : ∀ id ∈ p.capabilityIds,
      (ProjectionSet.replace ps).byCapability (p.deviceId, id) = some p.endpoint from
    ⟨hend, fun id hid => by simp [ProjectionSet.find, h id hid, hend]⟩
  clear hend he
  induction ps using List.reverseRecOn with
  | nil => simp at hp
  | append_singleton ps q ih =>
    rw [List.flatMap_append, List.nodup_append] at hr
    rw [replace_snoc]
    simp only [ProjectionSet.insert, byCapability_foldl]
    rcases List.mem_append.mp hp with hp | hp
    · intro id hid
      have hdisj : ¬(p.deviceId = q.deviceId ∧ id ∈ q.capabilityIds) := fun hq =>
        hr.2.2 ⟨p.deviceId, id⟩ (List.mem_flatMap.mpr ⟨p, hp, mem_refs.mpr ⟨rfl, hid⟩⟩)
          ⟨p.deviceId, id⟩ (by simpa using mem_refs.mpr ⟨hq.1.symm, hq.2⟩) rfl
      rw [if_neg hdisj, ih hr.1 hp id hid]
    · rw [List.mem_singleton.mp hp]
      exact fun id hid => by simp [hid]

/-! ## What `select` takes -/

theorem select_some {state : DeviceState} {c : Capability} {selected : Selected}
    (h : (select state c).2 = some selected) :
    c.capabilityType ≠ lightLevel ∧ ∃ mapped value, Mapped.ofType c.capabilityType = some mapped ∧
      (mapped.actuator = true → canActuate c = true) ∧ valueOf state c.id = some value ∧
        (selectValue state c mapped value).2 = some selected := by
  unfold select at h
  split at h
  · split at h <;> simp at h
  · rename_i hne
    refine ⟨hne, ?_⟩
    split at h
    · simp at h
    · rename_i mapped hm
      split at h
      · simp at h
      · split at h
        · simp at h
        · rename_i hperm
          split at h
          · simp at h
          · rename_i value hv
            refine ⟨mapped, value, hm, fun ha => ?_, hv, h⟩
            simpa [ha] using hperm

theorem composedLevel_some {state : DeviceState} {c : Capability} {level : Float64} {l : String} :
    (composedLevel state c).2 = some (level, l) ↔
      ∃ cap, ofType state.device lightLevel = [cap] ∧ cap.kind = "number" ∧
        canActuate cap = true ∧
        ((valueOf state cap.id).bind wireNumber).filter inPercent = some level ∧ cap.id = l := by
  unfold composedLevel
  cases hlevels : ofType state.device lightLevel with
  | nil => simp
  | cons cap rest =>
    cases rest with
    | cons => simp
    | nil =>
      simp only [List.cons.injEq, and_true, exists_eq_left']
      by_cases hk : cap.kind = "number"
      · cases hact : canActuate cap with
        | false => simp [hk]
        | true =>
          cases hv : ((valueOf state cap.id).bind wireNumber).filter inPercent with
          | none => simp [hk]
          | some v => simp [hk]
      · simp [hk]

/-- A level is taken by a light only. -/
theorem selectValue_levelId {state : DeviceState} {c : Capability} {mapped : Mapped}
    {value : WireValue} {selected : Selected} {l : String}
    (h : (selectValue state c mapped value).2 = some selected) (hl : selected.levelId = some l) :
    mapped = .lightOn ∧
      ∃ level, (composedLevel state c).2 = some (level, l) ∧ selected.level = some level := by
  unfold selectValue at h
  split at h
  case h_2 =>
    split at h
    · split at h
      · rename_i hc
        cases Option.some.inj h
        cases Option.some.inj hl
        exact ⟨rfl, _, by rw [hc], rfl⟩
      · cases Option.some.inj h
        simp at hl
    · simp at h
  all_goals
    split at h
    · cases Option.some.inj h
      simp at hl
    · simp at h

/-! ## Requests of the core -/

/-- Device states that the core can send. -/
structure Sendable (states : List Core.DeviceState) : Prop where
  distinct : (states.map fun s => s.device.id).Nodup
  validated : ∀ s ∈ states, s.device.validate = .ok ()
  valued : ∀ s ∈ states, ∀ c ∈ s.device.capabilities,
    (s.values[c.id]?).map Core.Value.kind = some c.kind

/-- What such a state is in the request. -/
structure Proper (w : DeviceState) : Prop where
  plain : '/' ∉ w.device.id.toList ∧ ∀ c ∈ w.device.capabilities, '/' ∉ c.id.toList
  complete : deviceDiagnostic w.device = none
  distinct : (w.device.capabilities.map Capability.id).Nodup
  kind : ∀ c ∈ w.device.capabilities, ∀ m, Mapped.ofType c.capabilityType = some m →
    c.kind = m.expectedKind
  levelKind : ∀ c ∈ w.device.capabilities, c.capabilityType = lightLevel → c.kind = "number"
  value : ∀ c ∈ w.device.capabilities, ∃ v : Core.Value,
    valueOf w c.id = some (Adapter.valueToApi v) ∧ v.kind.asStr = c.kind

section Sent

variable {s : Core.DeviceState} {w : DeviceState}

theorem valueOf_deviceState (h : Adapter.deviceState s = .ok w) {c : Core.Capability}
    (hc : c ∈ s.device.capabilities) {v : Core.Value} (hv : s.values[c.id]? = some v) :
    valueOf w c.id.asStr = some (Adapter.valueToApi v) := by
  obtain ⟨v', hv', ⟨entry, hm, hid⟩, hall⟩ := Adapter.deviceState_entries h hc
  rw [hv, Option.some.injEq] at hv'
  subst hv'
  exact Adapter.find_map ⟨entry, List.mem_reverse.mpr hm, by simpa using hid⟩
    fun entry' hm' hid' => hall entry' (List.mem_reverse.mp hm') (by simpa using hid')

/-- The built-in capability of a type. -/
def Mapped.builtin : Mapped → Core.BuiltinCapability
  | .switchOn => ⟨Core.switchOn, .bool, .actuator⟩
  | .lightOn => ⟨Core.lightOn, .bool, .actuator⟩
  | .outletOn => ⟨Core.outletOn, .bool, .actuator⟩
  | .temperature => ⟨Core.temperature, .number, .sensor⟩
  | .humidity => ⟨Core.relativeHumidity, .number, .sensor⟩
  | .contactOpen => ⟨Core.contactOpen, .bool, .sensor⟩
  | .occupancy => ⟨Core.occupancyDetected, .bool, .sensor⟩

theorem Mapped.builtin_kind (m : Mapped) : m.builtin.kind.asStr = m.expectedKind := by
  cases m <;> rfl

theorem Mapped.ofType_some {t : String} {m : Mapped} (h : Mapped.ofType t = some m) :
    t = m.builtin.capabilityType.asStr := by
  unfold Mapped.ofType at h
  repeat' split at h
  all_goals first
    | (cases Option.some.inj h; assumption)
    | simp at h

theorem Mapped.lookup {t : Core.CapabilityType} {m : Mapped} (h : Mapped.ofType t.asStr = some m) :
    Core.lookupBuiltinCapability t = some m.builtin := by
  have ht : t = m.builtin.capabilityType := Core.Identifier.ext' (Mapped.ofType_some h)
  subst ht
  cases m <;> decide

theorem not_slash_mem {of : Core.IdentifierOf} (i : Core.Identifier of) :
    '/' ∉ i.asStr.toList := fun hm => absurd (i.checks.2 _ hm) (by decide)

/-- What a validated device is in the request, whatever its values. -/
structure Validated (w : DeviceState) : Prop where
  plain : '/' ∉ w.device.id.toList ∧ ∀ c ∈ w.device.capabilities, '/' ∉ c.id.toList
  identifiers : Core.validateIdentifier w.device.id = .ok () ∧
    ∀ c ∈ w.device.capabilities, Core.validateIdentifier c.id = .ok ()
  complete : deviceDiagnostic w.device = none
  distinct : (w.device.capabilities.map Capability.id).Nodup
  kind : ∀ c ∈ w.device.capabilities, ∀ m, Mapped.ofType c.capabilityType = some m →
    c.kind = m.expectedKind
  levelKind : ∀ c ∈ w.device.capabilities, c.capabilityType = lightLevel → c.kind = "number"

theorem validated_of_device {d : Core.Device} (hd : d.validate = .ok ())
    (hdev : w.device = Adapter.deviceToApi d) : Validated w := by
  obtain ⟨hvalid, hnd⟩ := Core.Device.validate_ok hd
  obtain ⟨hname, hcaps, -⟩ := Core.Device.validate_checks hd
  -- A capability of the request is one of the device.
  have hmem : ∀ c ∈ w.device.capabilities, ∃ c' ∈ d.capabilities,
      c = Adapter.capabilityToApi c' := by
    intro c hc
    rw [hdev] at hc
    obtain ⟨c', hc', rfl⟩ := List.mem_map.mp hc
    exact ⟨c', hc', rfl⟩
  have hkind : ∀ c' ∈ d.capabilities, ∀ b,
      Core.lookupBuiltinCapability c'.capabilityType = some b → c'.kind = b.kind :=
    fun c' hc' b hb => Core.Capability.validate_kind (hvalid c' hc') hb
  refine ⟨?_, ?_, ?_, ?_, ?_, ?_⟩
  · refine ⟨by rw [hdev]; exact not_slash_mem d.id, fun c hc => ?_⟩
    obtain ⟨c', -, rfl⟩ := hmem c hc
    exact not_slash_mem c'.id
  · refine ⟨by rw [hdev]; exact d.id.valid, fun c hc => ?_⟩
    obtain ⟨c', -, rfl⟩ := hmem c hc
    exact c'.id.valid
  · rw [hdev]
    have hid : d.id.asStr.isEmpty = false := d.id.checks.1
    have hname' : d.name.isEmpty = false := by
      by_contra he
      rw [Bool.not_eq_false, String.isEmpty_iff] at he
      rw [he] at hname
      exact absurd hname (by decide)
    have hcaps' : (d.capabilities.map Adapter.capabilityToApi).isEmpty = false := by
      simpa using hcaps
    simp [deviceDiagnostic, Adapter.deviceToApi, hid, hname', hcaps']
  · rw [hdev]
    have hids : (d.capabilities.map Adapter.capabilityToApi).map Capability.id =
        (d.capabilities.map Core.Capability.id).map Core.Identifier.asStr := by
      simp [Adapter.capabilityToApi]
    show ((d.capabilities.map Adapter.capabilityToApi).map Capability.id).Nodup
    rw [hids]
    exact hnd.map fun _ _ he => Core.Identifier.ext' he
  · intro c hc m hm
    obtain ⟨c', hc', rfl⟩ := hmem c hc
    show c'.kind.asStr = m.expectedKind
    rw [hkind c' hc' m.builtin (Mapped.lookup hm), m.builtin_kind]
  · intro c hc ht
    obtain ⟨c', hc', rfl⟩ := hmem c hc
    have : c'.capabilityType = Core.lightLevel := Core.Identifier.ext' ht
    show c'.kind.asStr = "number"
    rw [hkind c' hc' ⟨Core.lightLevel, .number, .actuator⟩ (by rw [this]; decide)]
    rfl

theorem proper_of_sent (hs : s.device.validate = .ok ())
    (hv : ∀ c ∈ s.device.capabilities, (s.values[c.id]?).map Core.Value.kind = some c.kind)
    (h : Adapter.deviceState s = .ok w) : Proper w := by
  have hdev := Adapter.deviceState_device h
  have hw := validated_of_device hs hdev
  refine ⟨hw.plain, hw.complete, hw.distinct, hw.kind, hw.levelKind, fun c hc => ?_⟩
  rw [hdev] at hc
  obtain ⟨c', hc', rfl⟩ := List.mem_map.mp hc
  obtain ⟨v, hv, hk⟩ := Option.map_eq_some_iff.mp (hv c' hc')
  exact ⟨v, valueOf_deviceState h hc' hv, by rw [hk]; rfl⟩

end Sent

/-- What the request of the core is: distinct devices, each as it should be. -/
theorem proper_of_sendable {states : List Core.DeviceState} {devices : List DeviceState}
    (hs : Sendable states) (h : states.mapM Adapter.deviceState = .ok devices) :
    (devices.map fun w => w.device.id).Nodup ∧ ∀ w ∈ devices, Proper w := by
  constructor
  · have hids : devices.map (fun w => w.device.id) = states.map fun s => s.device.id.asStr :=
      Fallible.mapM_map (fun s w hw => by rw [Adapter.deviceState_device hw]; rfl) h
    have hmap : states.map (fun s => s.device.id.asStr) =
        (states.map fun s => s.device.id).map Core.Identifier.asStr := by simp
    rw [hids, hmap]
    exact hs.distinct.map fun _ _ he => Core.Identifier.ext' he
  · intro w hw
    obtain ⟨s, hm, hsw⟩ := Fallible.mapM_mem_right h hw
    exact proper_of_sent (hs.validated s hm) (hs.valued s hm) hsw

theorem validated_of_sendable {states : List Core.DeviceState} {devices : List DeviceState}
    (hs : Sendable states) (h : states.mapM Adapter.deviceState = .ok devices) :
    ∀ w ∈ devices, Validated w := by
  intro w hw
  obtain ⟨s, hm, hsw⟩ := Fallible.mapM_mem_right h hw
  exact validated_of_device (hs.validated s hm) (Adapter.deviceState_device hsw)

/-! ## Items -/

theorem mem_items {devices : List DeviceState} {i : Item} :
    i ∈ items devices ↔ i.state ∈ devices ∧ deviceDiagnostic i.state.device = none ∧
      i.capability ∈ i.state.device.capabilities ∧
        (select i.state i.capability).2 = some i.selected := by
  have hof : ∀ w, i ∈ itemsOf w ↔ deviceDiagnostic w.device = none ∧
      ∃ c ∈ w.device.capabilities, itemOf w c = some i := by
    intro w
    unfold itemsOf
    cases hd : deviceDiagnostic w.device <;> simp
  have hitem : ∀ w c, itemOf w c = some i ↔
      w = i.state ∧ c = i.capability ∧ (select i.state i.capability).2 = some i.selected := by
    intro w c
    obtain ⟨state, capability, selected⟩ := i
    simp only [itemOf, Option.map_eq_some_iff, Item.mk.injEq]
    grind
  simp only [items, List.mem_flatMap, hof, hitem]
  grind

/-- The items of one device have different capabilities. -/
def Item.Apart (i j : Item) : Prop :=
  i.state.device.id ≠ j.state.device.id ∨
    (i.state = j.state ∧ i.capability.id ≠ j.capability.id)

theorem items_apart {devices : List DeviceState}
    (hd : (devices.map fun w => w.device.id).Nodup) (hp : ∀ w ∈ devices, Proper w) :
    (items devices).Pairwise Item.Apart := by
  have hstate : ∀ w, ∀ i ∈ itemsOf w, i.state = w := by
    intro w i hi
    unfold itemsOf at hi
    split at hi
    · simp at hi
    · obtain ⟨c, -, hc⟩ := List.mem_filterMap.mp hi
      obtain ⟨selected, -, rfl⟩ := Option.map_eq_some_iff.mp hc
      rfl
  rw [items, List.pairwise_flatMap]
  refine ⟨fun w hw => ?_, ?_⟩
  · unfold itemsOf
    split
    · exact .nil
    · rw [List.pairwise_filterMap]
      refine (List.pairwise_map.mp (hp w hw).distinct).imp ?_
      intro c c' hne i hi j hj
      obtain ⟨x, -, rfl⟩ := Option.map_eq_some_iff.mp hi
      obtain ⟨y, -, rfl⟩ := Option.map_eq_some_iff.mp hj
      exact .inr ⟨rfl, hne⟩
  · refine (List.pairwise_map.mp hd).imp ?_
    intro w w' hne i hi j hj
    left
    rw [hstate w i hi, hstate w' j hj]
    exact hne

theorem mappingKey_inj {d d' c c' : String} (hd : '/' ∉ d.toList) (hc : '/' ∉ c.toList)
    (h : mappingKey d c = mappingKey d' c') : d = d' ∧ c = c' := by
  have hl : d.toList ++ '/' :: c.toList = d'.toList ++ '/' :: c'.toList := by
    simpa [mappingKey, String.toList_append] using congrArg String.toList h
  obtain ⟨h1, -, h2⟩ := (List.append_cons_inj_of_notMem hd hc).mp hl
  exact ⟨String.toList_inj.mp h1, String.toList_inj.mp h2⟩

/-- The endpoints of the items are distinct. -/
theorem endpoints_nodup {devices : List DeviceState} {m : EndpointMappings}
    (hd : (devices.map fun w => w.device.id).Nodup) (hp : ∀ w ∈ devices, Proper w)
    (hk : ∀ i ∈ items devices, ∃ e, m.mappings[i.key]? = some e) :
    (((items devices).map (Item.projection m)).map Projection.endpoint).Nodup := by
  rw [List.map_map, List.Nodup, List.pairwise_map]
  refine (items_apart hd hp).imp_of_mem ?_
  intro i j hi hj hij he
  obtain ⟨e, hei⟩ := hk i hi
  obtain ⟨e', hej⟩ := hk j hj
  have hee : e = e' := by
    simpa [Item.projection, Selected.projection, hei, hej] using he
  have hkey : i.key = j.key := m.distinct _ _ e hei (hee ▸ hej)
  obtain ⟨hstate, -, hcap, -⟩ := mem_items.mp hi
  obtain ⟨hplain, hplain'⟩ := (hp _ hstate).plain
  obtain ⟨h1, h2⟩ := mappingKey_inj hplain (hplain' _ hcap) hkey
  rcases hij with hne | ⟨-, hne⟩
  · exact hne h1
  · exact hne h2

/-! ## Sound references -/

/-- The lights of a device that can be projected. -/
def lights (device : Device) : List Capability :=
  device.capabilities.filter fun c => c.capabilityType = lightOn && canActuate c

/-- Several lights of the device can take its only level. -/
def contested (w : DeviceState) : Bool :=
  2 ≤ (lights w.device).length &&
    match ofType w.device lightLevel with
    | [cap] => canActuate cap && ((valueOf w cap.id).bind wireNumber).any inPercent
    | _ => false

theorem contested_iff {w : DeviceState} : contested w = true ↔
    2 ≤ (lights w.device).length ∧ ∃ cap level, ofType w.device lightLevel = [cap] ∧
      canActuate cap = true ∧
        ((valueOf w cap.id).bind wireNumber).filter inPercent = some level := by
  unfold contested
  rw [Bool.and_eq_true, decide_eq_true_eq]
  refine and_congr_right fun _ => ?_
  cases hlevels : ofType w.device lightLevel with
  | nil => simp
  | cons cap rest =>
    cases rest with
    | cons => simp
    | nil =>
      cases hv : (valueOf w cap.id).bind wireNumber with
      | none => simp [hv]
      | some v =>
        simp only [Option.any_some, Bool.and_eq_true, List.cons.injEq, and_true, exists_eq_left',
          exists_and_left, Option.filter_some, hv]
        cases inPercent v <;> simp

/-- A level capability belongs to a light, and it is the only one of its device. -/
theorem select_level {w : DeviceState} {c : Capability} {selected : Selected} {l : String}
    (h : (select w c).2 = some selected) (hl : selected.levelId = some l) :
    c.capabilityType = lightOn ∧ canActuate c = true ∧
      ∃ cap level, ofType w.device lightLevel = [cap] ∧ canActuate cap = true ∧
        ((valueOf w cap.id).bind wireNumber).filter inPercent = some level ∧ cap.id = l ∧
          selected.level = some level := by
  obtain ⟨-, mapped, value, hm, hact, -, hsel⟩ := select_some h
  obtain ⟨rfl, level, hlevel, hsl⟩ := selectValue_levelId hsel hl
  obtain ⟨cap, hcap, -, hcact, hv, hid⟩ := composedLevel_some.mp hlevel
  exact ⟨Mapped.ofType_some hm, hact rfl, cap, level, hcap, hcact, hv, hid, hsl⟩

theorem mem_ofType {device : Device} {t : String} {cap : Capability} (h : ofType device t = [cap]) :
    cap ∈ device.capabilities ∧ cap.capabilityType = t := by
  have hm : cap ∈ ofType device t := by simp [h]
  simpa [ofType] using hm

section Disjoint

variable {w : DeviceState} (hw : Proper w)

include hw

theorem capability_eq {c c' : Capability} (hc : c ∈ w.device.capabilities)
    (hc' : c' ∈ w.device.capabilities) (h : c.id = c'.id) : c = c' :=
  List.inj_on_of_nodup_map hw.distinct hc hc' h

/-- The primary capability of an item is the level of none. -/
theorem primary_ne_level {c c' : Capability} {x y : Selected} (hc : c ∈ w.device.capabilities)
    (hx : (select w c).2 = some x) (hy : (select w c').2 = some y) : y.levelId ≠ some c.id := by
  intro hl
  obtain ⟨-, -, cap, -, hcap, -, -, hid, -⟩ := select_level hy hl
  obtain ⟨hmem, htype⟩ := mem_ofType hcap
  have hcc : c = cap := capability_eq hw hc hmem hid.symm
  exact (select_some hx).1 (hcc ▸ htype)

/-- Without a contest the items of a device share no capability. -/
theorem refs_disjoint (hn : contested w = false) {c c' : Capability} {x y : Selected}
    (hc : c ∈ w.device.capabilities) (hc' : c' ∈ w.device.capabilities) (hne : c.id ≠ c'.id)
    (hx : (select w c).2 = some x) (hy : (select w c').2 = some y) (e e' : Nat) :
    (x.projection w.device c e).refs.Disjoint (y.projection w.device c' e').refs := by
  intro r hr hr'
  have h1 := (mem_refs.mp hr).2
  have h2 := (mem_refs.mp hr').2
  simp only [Projection.capabilityIds, Selected.projection, List.mem_cons, Option.mem_toList] at h1 h2
  rcases h1 with h1 | h1 <;> rcases h2 with h2 | h2
  · exact hne (h1.symm.trans h2)
  · exact primary_ne_level hw hc hx hy (h1 ▸ h2)
  · exact primary_ne_level hw hc' hy hx (h2 ▸ h1)
  · -- Both take the level: two lights of the device can.
    obtain ⟨ht, hact, cap, level, hcap, hcact, hv, -, -⟩ := select_level hx h1
    obtain ⟨ht', hact', -⟩ := select_level hy h2
    have hlight : c ∈ lights w.device := by simp [lights, hc, ht, hact]
    have hlight' : c' ∈ lights w.device := by simp [lights, hc', ht', hact']
    have hlen : 2 ≤ (lights w.device).length := by
      by_contra hlt
      obtain ⟨a, ha⟩ : ∃ a, lights w.device = [a] := by
        match hl : lights w.device with
        | [] => simp [hl] at hlight
        | [a] => exact ⟨a, rfl⟩
        | a :: b :: rest => simp [hl] at hlt
      rw [ha, List.mem_singleton] at hlight hlight'
      exact hne (by rw [hlight, hlight'])
    exact absurd (contested_iff.mpr ⟨hlen, cap, level, hcap, hcact, hv⟩) (by simp [hn])

/-- In a contest two items have the level. -/
theorem select_of_contested (hcont : contested w = true) :
    ∃ c c' x y l, c ∈ w.device.capabilities ∧ c' ∈ w.device.capabilities ∧ c ≠ c' ∧
      (select w c).2 = some x ∧ (select w c').2 = some y ∧
        x.levelId = some l ∧ y.levelId = some l := by
  obtain ⟨hlen, cap, level, hcap, hcact, hv⟩ := contested_iff.mp hcont
  -- Every light takes the level.
  have hlight : ∀ c ∈ lights w.device, ∃ x, (select w c).2 = some x ∧ x.levelId = some cap.id := by
    intro c hc
    obtain ⟨hmem, ht⟩ := List.mem_filter.mp hc
    simp only [Bool.and_eq_true, decide_eq_true_eq] at ht
    have hof : Mapped.ofType c.capabilityType = some .lightOn := by rw [ht.1]; decide
    obtain ⟨v, hval, hkind⟩ := hw.value c hmem
    have hbool : c.kind = "bool" := hw.kind c hmem .lightOn hof
    obtain ⟨b, rfl⟩ : ∃ b, v = .bool b := by
      rw [hbool] at hkind
      cases v <;> simp [Core.Value.kind, Core.ValueKind.asStr] at hkind ⊢
    have hne : c.capabilityType ≠ lightLevel := by rw [ht.1]; decide
    have hlevel : (composedLevel w c).2 = some (level, cap.id) :=
      composedLevel_some.mpr
        ⟨cap, hcap, hw.levelKind cap (mem_ofType hcap).1 (mem_ofType hcap).2, hcact, hv, rfl⟩
    obtain ⟨ds, hds⟩ : ∃ ds, composedLevel w c = (ds, some (level, cap.id)) :=
      ⟨(composedLevel w c).1, by rw [← hlevel]⟩
    refine ⟨⟨.dimmableLight, some b, some level, none, none, some cap.id⟩, ?_, rfl⟩
    simp [select, hne, hof, Mapped.expectedKind, hbool, Mapped.actuator, ht.2, hval, selectValue,
      wireBool, Adapter.valueToApi, Core.Value.kind, Core.ValueKind.asStr, hds]
  cases hl : lights w.device with
  | nil => simp [hl] at hlen
  | cons c others =>
    cases others with
    | nil => simp [hl] at hlen
    | cons c' rest =>
      have hsub : (lights w.device).Sublist w.device.capabilities := List.filter_sublist
      have hnd : (lights w.device).Nodup := (List.Nodup.of_map _ hw.distinct).sublist hsub
      rw [hl] at hnd hsub hlight
      obtain ⟨x, hx, hxl⟩ := hlight c (by simp)
      obtain ⟨y, hy, hyl⟩ := hlight c' (by simp)
      refine ⟨c, c', x, y, cap.id, hsub.subset (by simp), hsub.subset (by simp), ?_, hx, hy, hxl, hyl⟩
      rintro rfl
      simp at hnd

end Disjoint

/-- What the host and the bridge need of a projection. -/
structure Sound (devices : List DeviceState) (built : BuiltProjection) : Prop where
  once : built.refs.Nodup
  requested : ∀ r ∈ built.refs, ∃ w ∈ devices, w.device.id = r.deviceId ∧
    ∃ c ∈ w.device.capabilities, c.id = r.capabilityId
  accepted : ∃ keys, Adapter.acceptedProjectionKeys (some built.refs)
    (Adapter.projectionKeys devices) = .ok keys
  resolved : ∀ r ∈ built.refs, ∃ p,
    (ProjectionSet.replace built.result).find r.deviceId r.capabilityId = some p ∧
      p.deviceId = r.deviceId ∧ r.capabilityId ∈ p.capabilityIds
  unshared : ∀ e e' p p', (ProjectionSet.replace built.result).endpoint e = some p →
    (ProjectionSet.replace built.result).endpoint e' = some p' → e ≠ e' →
      p.deviceId = p'.deviceId → ∀ id ∈ p.capabilityIds, id ∉ p'.capabilityIds

section Build

variable {devices : List DeviceState} (hd : (devices.map fun w => w.device.id).Nodup)
  (hp : ∀ w ∈ devices, Proper w) {builder builder' : ProjectionBuilder}
  {saved : Except String Unit} {built : BuiltProjection}
  (h : builder.build saved devices = (.ok built, builder'))

include h

theorem refs_requested : ∀ r ∈ built.refs, ∃ w ∈ devices, w.device.id = r.deviceId ∧
    ∃ c ∈ w.device.capabilities, c.id = r.capabilityId := by
  intro r hr
  obtain ⟨hresult, hrefs, -⟩ := build_ok h
  rw [hrefs, hresult, List.flatMap_map] at hr
  obtain ⟨i, hi, hr⟩ := List.mem_flatMap.mp hr
  obtain ⟨hw, -, hc, hsel⟩ := mem_items.mp hi
  obtain ⟨hdev, hid⟩ := mem_refs.mp hr
  refine ⟨i.state, hw, hdev, ?_⟩
  simp only [Projection.capabilityIds, Item.projection, Selected.projection, List.mem_cons,
    Option.mem_toList] at hid
  rcases hid with hid | hid
  · exact ⟨i.capability, hc, hid.symm⟩
  · obtain ⟨-, -, cap, -, hcap, -, -, hl, -⟩ := select_level hsel hid
    exact ⟨cap, (mem_ofType hcap).1, hl⟩

include hp

theorem contested_of_nodup (hnd : built.refs.Nodup) : ∀ w ∈ devices, contested w = false := by
  intro w hw
  by_contra hcont
  rw [Bool.not_eq_false] at hcont
  obtain ⟨c, c', x, y, l, hc, hc', hne, hx, hy, hxl, hyl⟩ := select_of_contested (hp w hw) hcont
  obtain ⟨hresult, hrefs, -⟩ := build_ok h
  rw [hrefs, hresult, List.flatMap_map, List.nodup_flatMap] at hnd
  have hi : ⟨w, c, x⟩ ∈ items devices := mem_items.mpr ⟨hw, (hp w hw).complete, hc, hx⟩
  have hj : ⟨w, c', y⟩ ∈ items devices := mem_items.mpr ⟨hw, (hp w hw).complete, hc', hy⟩
  have : Std.Symm (Function.onFun List.Disjoint fun i : Item =>
      (i.projection builder'.mappings).refs) := ⟨fun _ _ hij _ h1 h2 => hij h2 h1⟩
  have hdisj := hnd.2.forall hi hj fun he => hne (Item.mk.inj he).2.1
  have hmem : ∀ {c : Capability} {x : Selected}, x.levelId = some l →
      (⟨w.device.id, l⟩ : ProjectionRef) ∈ (Item.projection builder'.mappings ⟨w, c, x⟩).refs :=
    fun hl => mem_refs.mpr ⟨rfl, by
      simp [Projection.capabilityIds, Item.projection, Selected.projection, hl]⟩
  exact hdisj (hmem hxl) (hmem hyl)

include hd

theorem refs_nodup (hn : ∀ w ∈ devices, contested w = false) : built.refs.Nodup := by
  obtain ⟨hresult, hrefs, -⟩ := build_ok h
  rw [hrefs, hresult, List.flatMap_map, List.nodup_flatMap]
  constructor
  · intro i hi
    obtain ⟨hw, -, hc, hsel⟩ := mem_items.mp hi
    have hne := primary_ne_level (hp _ hw) hc hsel hsel
    refine List.Nodup.map (fun _ _ he => (Adapter.Projection.mk.inj he).2) ?_
    cases hl : i.selected.levelId with
    | none => simp [Projection.capabilityIds, Item.projection, Selected.projection, hl]
    | some l =>
      rw [hl] at hne
      simpa [Projection.capabilityIds, Item.projection, Selected.projection, hl] using
        fun he => hne (congrArg some he.symm)
  · refine (items_apart hd hp).imp_of_mem ?_
    intro i j hi hj hij
    obtain ⟨hw, -, hc, hsel⟩ := mem_items.mp hi
    obtain ⟨hw', -, hc', hsel'⟩ := mem_items.mp hj
    rcases hij with hne | ⟨hst, hne⟩
    · intro r hr hr'
      exact hne ((mem_refs.mp hr).1.trans (mem_refs.mp hr').1.symm)
    · show (i.projection _).refs.Disjoint (j.projection _).refs
      unfold Item.projection
      rw [← hst] at hc' hsel' ⊢
      exact refs_disjoint (hp _ hw) (hn _ hw) hc hc' hne hsel hsel' _ _

theorem sound_of_nodup (hnd : built.refs.Nodup) : Sound devices built := by
  obtain ⟨hresult, hrefs, hkeys⟩ := build_ok h
  have hreq := refs_requested h
  have hends : (built.result.map Projection.endpoint).Nodup := by
    rw [hresult]
    exact endpoints_nodup hd hp hkeys
  have hfind := fun {p} => replace_find (p := p) hends (hrefs ▸ hnd)
  refine ⟨hnd, hreq, ?_, ?_, ?_⟩
  · refine Adapter.acceptedProjectionKeys_ok.mpr ⟨fun r hr => ?_, hnd⟩
    exact (Adapter.projectionKeys_has hd).mpr (hreq r hr)
  · intro r hr
    rw [hrefs] at hr
    obtain ⟨p, hp, hr⟩ := List.mem_flatMap.mp hr
    obtain ⟨hdev, hid⟩ := mem_refs.mp hr
    exact ⟨p, hdev ▸ (hfind hp).2 _ hid, hdev, hid⟩
  · intro e e' p p' he he' hne hdev id hid hid'
    obtain ⟨hp, rfl⟩ := replace_byEndpoint he
    obtain ⟨hp', rfl⟩ := replace_byEndpoint he'
    have h1 := (hfind hp).2 id hid
    have h2 := (hfind hp').2 id hid'
    rw [hdev, h2] at h1
    exact hne (by rw [Option.some.inj h1])

end Build

/-- The references of a successful `build` are sound exactly when no device of the request is
    contested. -/
theorem sound_iff {states : List Core.DeviceState} {devices : List DeviceState}
    (hs : Sendable states) (hreq : states.mapM Adapter.deviceState = .ok devices)
    {builder builder' : ProjectionBuilder} {saved : Except String Unit} {built : BuiltProjection}
    (h : builder.build saved devices = (.ok built, builder')) :
    Sound devices built ↔ ∀ w ∈ devices, contested w = false := by
  obtain ⟨hd, hp⟩ := proper_of_sendable hs hreq
  constructor
  · exact fun hsound => contested_of_nodup hp h hsound.once
  · exact fun hn => sound_of_nodup hd hp h (refs_nodup hd hp h hn)

/-! ## A hall with two lamps and one dimmer -/

def rwo : Core.Permissions := ⟨true, true, true⟩

def leftLamp : Core.Capability :=
  ⟨⟨"left", by decide⟩, Core.lightOn, "Left", .bool, rwo, .bool false⟩

def rightLamp : Core.Capability :=
  ⟨⟨"right", by decide⟩, Core.lightOn, "Right", .bool, rwo, .bool false⟩

def dimmer : Core.Capability :=
  ⟨⟨"level", by decide⟩, Core.lightLevel, "Level", .number, rwo, .number ⟨0#64⟩⟩

/-- A device with its initial values. -/
def initialState (id : Core.DeviceId) (name : String) (cs : List Core.Capability) :
    Core.DeviceState :=
  ⟨⟨id, name, "", "", cs⟩, cs.foldl (fun values c => values.insert c.id c.initialValue) ∅⟩

def hall : Core.DeviceState :=
  initialState ⟨"hall", by decide⟩ "Hall" [leftLamp, rightLamp, dimmer]

def porch : Core.DeviceState := initialState ⟨"porch", by decide⟩ "Porch" [leftLamp, dimmer]

theorem sound_porch : ∃ devices built builder',
    [porch].mapM Adapter.deviceState = .ok devices ∧
      (⟨.default⟩ : ProjectionBuilder).build (.ok ()) devices = (.ok built, builder') ∧
        Sound devices built := by
  have hs : Sendable [porch] := ⟨by decide, by decide, by decide⟩
  refine ⟨_, _, _, rfl, rfl, ?_⟩
  exact (@sound_iff _ _ hs rfl ⟨.default⟩ _ (.ok ()) _ rfl).mpr (by decide)

/-- Both lamps take the dimmer, which is then named twice. -/
theorem not_sound_hall : Sendable [hall] ∧ ∃ devices built builder',
    [hall].mapM Adapter.deviceState = .ok devices ∧
      (⟨.default⟩ : ProjectionBuilder).build (.ok ()) devices = (.ok built, builder') ∧
        ¬Sound devices built := by
  have hs : Sendable [hall] := ⟨by decide, by decide, by decide⟩
  refine ⟨hs, _, _, _, rfl, rfl, fun hsound => ?_⟩
  have hn := @contested_of_nodup _ (proper_of_sendable hs rfl).2 ⟨.default⟩ _ (.ok ()) _ rfl
    hsound.once
  exact absurd hn (by decide)

end Oikade.Matter
