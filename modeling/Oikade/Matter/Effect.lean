/-
  What an event does to the bridge, and what it leaves alone.

  `Reading` is one field of a projection with a value for it. `reads` says which reading a wire value
  is, from the role of the capability and the profile alone; `cluster` says which attribute shows it.
  `event_eq` is the effect on one projection. `updateEvent_effect` is that of `update_event` in every
  bridge state that `replace`, `update_event`, `apply_on` and `apply_level` lead to: one reading is
  stored in one projection, the change is reported exactly when the stored value differed, and the
  same event a second time does nothing.
-/
import Oikade.Matter.Commands

namespace Oikade.Matter

/-! ## Readings -/

/-- A field of a projection and a value for it. -/
inductive Reading where
  | on (value : Bool)
  | level (value : Float64)
  | sensor (value : Float64)
  | binarySensor (value : Bool)
  deriving DecidableEq, Repr

/-- The field now holds the value. -/
def Projection.store (p : Projection) : Reading → Projection
  | .on value => { p with on := some value }
  | .level value => { p with level := some value }
  | .sensor value => { p with sensor := some value }
  | .binarySensor value => { p with binarySensor := some value }

/-- The field holds another value, or none. Numbers are compared as numbers. -/
def Projection.differs (p : Projection) : Reading → Bool
  | .on value => p.on ≠ some value
  | .level value => !p.level.any fun stored => stored.eq value
  | .sensor value => !p.sensor.any fun stored => stored.eq value
  | .binarySensor value => p.binarySensor ≠ some value

/-- The reading of the primary capability. -/
def Profile.reads (profile : Profile) (value : WireValue) : Option Reading :=
  match profile with
  | .onOffLight | .dimmableLight | .outlet => (wireBool value).map .on
  | .temperature => ((wireNumber value).filter inTemperature).map .sensor
  | .humidity => ((wireNumber value).filter inPercent).map .sensor
  | .contact | .occupancy => (wireBool value).map .binarySensor

/-- The attribute of the primary capability. -/
def Profile.cluster : Profile → Cluster × Attribute
  | .onOffLight | .dimmableLight | .outlet => (.onOff, .onOff)
  | .temperature => (.temperature, .zero)
  | .humidity => (.humidity, .zero)
  | .contact => (.contact, .zero)
  | .occupancy => (.occupancy, .zero)

/-- The reading of a wire value for a capability of the projection. -/
def Projection.reads (p : Projection) (capabilityId : String) (value : WireValue) : Option Reading :=
  if capabilityId = p.primaryCapabilityId then p.profile.reads value
  else if p.levelCapabilityId = some capabilityId then ((wireNumber value).filter inPercent).map .level
  else none

def Projection.cluster (p : Projection) (capabilityId : String) : Cluster × Attribute :=
  if capabilityId = p.primaryCapabilityId then p.profile.cluster else (.level, .currentLevel)

/-- The change that is reported for a reading. -/
def Projection.change (p : Projection) (capabilityId : String) (r : Reading) : Option Change :=
  if p.differs r = true then
    some ⟨p.endpoint, (p.cluster capabilityId).1, (p.cluster capabilityId).2⟩
  else none

/-! ## One projection -/

/-- `update_event` stores the reading of the value, or fails when the value is none. -/
theorem event_eq (p : Projection) (id : String) (value : WireValue) :
    (∃ r, p.reads id value = some r ∧ p.event id value = .ok (p.change id r, p.store r)) ∨
      (p.reads id value = none ∧ ∃ e, p.event id value = .error e) := by
  unfold Projection.reads Projection.event
  by_cases hid : id = p.primaryCapabilityId
  · simp only [hid, if_true, Profile.reads]
    cases hprof : p.profile with
    | onOffLight | dimmableLight | outlet | contact | occupancy =>
      cases wireBool value with
      | none => simp
      | some v => simp [Projection.change, Projection.differs, Projection.cluster, Profile.cluster,
          Projection.store, hprof]
    | temperature =>
      cases wireNumber value with
      | none => simp
      | some v =>
        cases hf : v.isFinite <;>
          cases hr : Float64.inRange temperatureMinimum temperatureMaximum v <;>
          simp [inTemperature, Option.filter, Projection.change, Projection.differs, numberChanged,
            Projection.cluster, Profile.cluster, Projection.store, hprof, hf, hr]
    | humidity =>
      cases wireNumber value with
      | none => simp
      | some v =>
        cases hf : v.isFinite <;>
          cases hr : Float64.inRange percentMinimum percentMaximum v <;>
          simp [inPercent, Option.filter, Projection.change, Projection.differs, numberChanged,
            Projection.cluster, Profile.cluster, Projection.store, hprof, hf, hr]
  · simp only [hid, if_false]
    by_cases hl : p.levelCapabilityId = some id
    · cases wireNumber value with
      | none => simp [hl]
      | some v =>
        cases hr : inPercent v <;>
          simp [hl, hid, hr, Option.filter, Projection.change, Projection.differs, numberChanged,
            Projection.cluster, Projection.store]
    · simp [hl]

/-- A reading changes nothing of what decides how values are read and shown. -/
@[simp] theorem store_reads (p : Projection) (r : Reading) (id : String) (value : WireValue) :
    (p.store r).reads id value = p.reads id value := by
  cases r <;> rfl

@[simp] theorem store_endpoint (p : Projection) (r : Reading) : (p.store r).endpoint = p.endpoint := by
  cases r <;> rfl

@[simp] theorem store_shape (p : Projection) (r : Reading) : (p.store r).shape = p.shape := by
  cases r <;> rfl

@[simp] theorem store_store (p : Projection) (r : Reading) : (p.store r).store r = p.store r := by
  cases r <;> rfl

/-- A value that was read is a number or a truth value that equals itself. -/
theorem differs_store {p : Projection} {id : String} {value : WireValue} {r : Reading}
    (h : p.reads id value = some r) : (p.store r).differs r = false := by
  have hself : ∀ {lo hi x : Float64}, (x.isFinite && Float64.inRange lo hi x) = true →
      x.eq x = true := fun h => Float64.eq_self_of_isFinite (Bool.and_eq_true _ _ ▸ h).1
  cases r with
  | on v => simp [Projection.differs, Projection.store]
  | binarySensor v => simp [Projection.differs, Projection.store]
  | level x | sensor x =>
    have heq : x.eq x = true := by
      unfold Projection.reads Profile.reads at h
      split at h
      · split at h <;> simp at h
        all_goals exact hself h.2
      · split at h <;> simp at h
        all_goals exact hself h.2
    simp [Projection.differs, Projection.store, heq]

/-! ## The bridge -/

/-- The calls that change the projections of a bridge. -/
inductive BridgeOp where
  | replace (projections : List Projection)
  | event (deviceId capabilityId : String) (value : WireValue)
  | applyOn (endpoint : Nat) (value : Bool)
  | applyLevel (endpoint : Nat) (value : Float64)

def BridgeOp.apply (b : BridgeState) : BridgeOp → BridgeState
  | .replace projections => .replace projections
  | .event deviceId capabilityId value => (b.updateEvent deviceId capabilityId value).2
  | .applyOn endpoint value => b.applyOn endpoint value
  | .applyLevel endpoint value => b.applyLevel endpoint value

def BridgeState.after (ops : List BridgeOp) : BridgeState := ops.foldl BridgeOp.apply .new

/-- A projection is kept under its own endpoint. -/
def BridgeState.Placed (b : BridgeState) : Prop :=
  ∀ e p, b.projections.byEndpoint e = some p → p.endpoint = e

theorem placed_replace (ps : List Projection) : (BridgeState.replace ps).Placed :=
  fun _ _ h => (replace_byEndpoint h).2

theorem BridgeState.placed_of_alike {b b' : BridgeState} (h : b.Alike b') (hb : b.Placed) :
    b'.Placed := by
  intro e p' he
  have hshape := h.2 e
  rw [he, Option.map_some] at hshape
  obtain ⟨p, hp, heq⟩ := Option.map_eq_some_iff.mp hshape.symm
  have hend : p.shape.endpoint = p'.shape.endpoint := congrArg Projection.endpoint heq
  exact hend.symm.trans (hb e p hp)

theorem alike_apply (b : BridgeState) (op : BridgeOp) :
    b.Alike (op.apply b) ∨ ∃ ps, op = .replace ps ∧ op.apply b = .replace ps := by
  cases op with
  | replace ps => exact .inr ⟨ps, rfl, rfl⟩
  | event d id value => exact .inl (b.updateEvent_spec d id value).2
  | applyOn e value =>
    left
    simp only [BridgeOp.apply, BridgeState.applyOn, ProjectionSet.endpoint]
    cases he : b.projections.byEndpoint e with
    | none => exact BridgeState.Alike.refl b
    | some p => exact BridgeState.write_alike he rfl
  | applyLevel e value =>
    left
    simp only [BridgeOp.apply, BridgeState.applyLevel, ProjectionSet.endpoint]
    cases he : b.projections.byEndpoint e with
    | none => exact BridgeState.Alike.refl b
    | some p => exact BridgeState.write_alike he rfl

theorem after_snoc (ops : List BridgeOp) (op : BridgeOp) :
    BridgeState.after (ops ++ [op]) = op.apply (BridgeState.after ops) := by
  simp [BridgeState.after]

theorem placed_after (ops : List BridgeOp) : (BridgeState.after ops).Placed := by
  induction ops using List.reverseRecOn with
  | nil => exact placed_replace []
  | append_singleton ops op ih =>
    rw [after_snoc]
    obtain halike | ⟨ps, rfl, hreplace⟩ := alike_apply (BridgeState.after ops) op
    · exact BridgeState.placed_of_alike halike ih
    · exact hreplace ▸ placed_replace ps

/-- As long as no two projections of one call of `replace` share an endpoint. -/
theorem keyed_after {ops : List BridgeOp}
    (h : ∀ ps, .replace ps ∈ ops → (ps.map Projection.endpoint).Nodup) :
    (BridgeState.after ops).Keyed := by
  induction ops using List.reverseRecOn with
  | nil => exact @BridgeState.keyed_replace [] List.nodup_nil
  | append_singleton ops op ih =>
    rw [after_snoc]
    obtain halike | ⟨ps, rfl, hreplace⟩ := alike_apply (BridgeState.after ops) op
    · exact BridgeState.keyed_of_alike halike (ih fun ps hps => h ps (List.mem_append_left _ hps))
    · exact hreplace ▸ BridgeState.keyed_replace (h ps (by simp))

/-! ## The effect of an event -/

/-- The event stored a reading in the projection at an endpoint and did nothing else. -/
structure Stored (b : BridgeState) (deviceId capabilityId : String) (value : WireValue)
    (change : Option Change) (b' : BridgeState) (e : Nat) (p : Projection) (r : Reading) : Prop where
  index : b.projections.byCapability (deviceId, capabilityId) = some e
  projection : b.projections.byEndpoint e = some p
  endpoint : p.endpoint = e
  reading : p.reads capabilityId value = some r
  stored : b'.projections.byEndpoint e = some (p.store r)
  others : ∀ e', e' ≠ e → b'.projections.byEndpoint e' = b.projections.byEndpoint e'
  indexes : b'.projections.byCapability = b.projections.byCapability
  reported : change = p.change capabilityId r

/-- A reading that is found is stored. -/
theorem updateEvent_of_reads {b : BridgeState} (hb : b.Placed) {d id : String} {value : WireValue}
    {e : Nat} {p : Projection} {r : Reading} (hc : b.projections.byCapability (d, id) = some e)
    (he : b.projections.byEndpoint e = some p) (hr : p.reads id value = some r) :
    b.updateEvent d id value = (.ok (p.change id r), ⟨b.projections.write e (p.store r)⟩) ∧
      Stored b d id value (p.change id r) ⟨b.projections.write e (p.store r)⟩ e p r := by
  constructor
  · obtain ⟨r', hr', hev⟩ | ⟨hnone, -⟩ := event_eq p id value
    · rw [hr, Option.some.injEq] at hr'
      subst hr'
      simp only [BridgeState.updateEvent, hc, ProjectionSet.endpoint, he, hev]
    · rw [hr] at hnone
      cases hnone
  · refine ⟨hc, he, hb e p he, hr, ?_, ?_, rfl, rfl⟩
    · simp [ProjectionSet.write]
    · intro e' hne
      simp [ProjectionSet.write, Function.update_of_ne hne]

/-- Every other event fails and changes nothing. -/
theorem updateEvent_cases (b : BridgeState) (d id : String) (value : WireValue) :
    (∃ err, b.updateEvent d id value = (.error err, b)) ∨
      ∃ e p r, b.projections.byCapability (d, id) = some e ∧ b.projections.byEndpoint e = some p ∧
        p.reads id value = some r := by
  simp only [BridgeState.updateEvent, ProjectionSet.endpoint]
  cases hc : b.projections.byCapability (d, id) with
  | none => exact .inl ⟨_, rfl⟩
  | some e =>
    cases he : b.projections.byEndpoint e with
    | none => exact .inl ⟨.notFound, by simp only [he]⟩
    | some p =>
      obtain ⟨r, hr, -⟩ | ⟨-, err, hev⟩ := event_eq p id value
      · exact .inr ⟨e, p, r, rfl, he, hr⟩
      · exact .inl ⟨err, by simp only [he, hev]⟩

/-- An event that fails leaves the projections as they are. One that succeeds stores the value it
    carries in one field of one projection and nothing else, reports the change of that field if
    there is one, and does nothing more when it is repeated. -/
theorem updateEvent_effect (ops : List BridgeOp) (deviceId capabilityId : String)
    (value : WireValue) :
    let b := BridgeState.after ops
    let b' := (b.updateEvent deviceId capabilityId value).2
    (∀ e, (b.updateEvent deviceId capabilityId value).1 = .error e → b' = b) ∧
    ∀ change, (b.updateEvent deviceId capabilityId value).1 = .ok change →
      (∃ e p r, Stored b deviceId capabilityId value change b' e p r ∧
        ((∀ ps, .replace ps ∈ ops → (ps.map Projection.endpoint).Nodup) →
          p.deviceId = deviceId ∧ capabilityId ∈ p.capabilityIds)) ∧
      b'.updateEvent deviceId capabilityId value = (.ok none, b') := by
  have hplaced := placed_after ops
  obtain ⟨err, herr⟩ | ⟨e, p, r, hc, he, hr⟩ :=
    updateEvent_cases (BridgeState.after ops) deviceId capabilityId value
  · simp only [herr]
    exact ⟨fun _ _ => trivial, fun change h => by cases h⟩
  · obtain ⟨heq, hstored⟩ := updateEvent_of_reads hplaced hc he hr
    simp only [heq]
    refine ⟨fun err h => (by cases h), fun change h => ?_⟩
    cases h
    refine ⟨⟨e, p, r, hstored, fun hdistinct => keyed_after hdistinct _ e p hc he⟩, ?_⟩
    -- the same event finds the projection with the reading in it
    have hr' : (p.store r).reads capabilityId value = some r := by rw [store_reads, hr]
    have hplaced' : BridgeState.Placed ⟨(BridgeState.after ops).projections.write e (p.store r)⟩ :=
      BridgeState.placed_of_alike (BridgeState.write_alike he (store_shape p r)) hplaced
    obtain ⟨hagain, -⟩ := updateEvent_of_reads hplaced' (hstored.indexes ▸ hc) hstored.stored hr'
    rw [hagain]
    simp [Projection.change, differs_store hr, ProjectionSet.write]

/-- A light that is off. -/
def porchLight : Projection :=
  ⟨3, "porch", "light", none, "Porch", "porch.light", .onOffLight, some false, none, none, none⟩

/-- The light is switched on: the event is stored and reported, and the same event again is not. -/
theorem updateEvent_porchLight :
    let b := BridgeState.after [.replace [porchLight]]
    let b' := (b.updateEvent "porch" "light" (Adapter.valueToApi (.bool true))).2
    (b.updateEvent "porch" "light" (Adapter.valueToApi (.bool true))).1 =
        .ok (some ⟨3, .onOff, .onOff⟩) ∧
      b'.projections.byEndpoint 3 = some { porchLight with on := some true } ∧
      b'.updateEvent "porch" "light" (Adapter.valueToApi (.bool true)) = (.ok none, b') := by
  have hok : ((BridgeState.after [.replace [porchLight]]).updateEvent "porch" "light"
      (Adapter.valueToApi (.bool true))).1 = .ok (some ⟨3, .onOff, .onOff⟩) := by decide
  obtain ⟨⟨e, p, r, hstored, -⟩, hagain⟩ :=
    (updateEvent_effect [.replace [porchLight]] "porch" "light" (Adapter.valueToApi (.bool true))).2
      _ hok
  obtain rfl : 3 = e := Option.some.inj hstored.index
  obtain rfl : porchLight = p := Option.some.inj hstored.projection
  obtain rfl : Reading.on true = r := Option.some.inj hstored.reading
  exact ⟨hok, hstored.stored, hagain⟩

end Oikade.Matter
